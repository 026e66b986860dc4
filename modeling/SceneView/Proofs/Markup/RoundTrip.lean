import SceneView.Proofs.Markup.Events

/-!
# Reading written documents

A written document is read as the tree that it was written from, the lines aside. `Parses` says that
from some characters on, with some elements open, reading leads to a tree; the events of a form are
then taken in one after the other, and the children of an element by induction.
-/

open List

namespace SceneView

namespace Element

lemma unlinedAll_eq_map (es : List Element) : unlinedAll es = es.map unlined := by
  induction es with
  | nil => rfl
  | cons e es ih => rw [unlinedAll, ih, map_cons]

lemma unlined_withChild (e c : Element) :
    (e.withChild c).unlined = e.unlined.withChild c.unlined := by
  cases e with
  | mk tag attributes children text line =>
    simp [withChild, unlined, unlinedAll_eq_map]

end Element

namespace Markup

namespace Builder

def unlined (b : Builder) : Builder :=
  { stack := b.stack.map Element.unlined, root := b.root.map Element.unlined }

variable {b b₁ : Builder} {e : Element} {outer : List Element} {root : Option Element}

lemma attach_unlined (h : b.unlined.attach e.unlined = .ok b₁) :
    ∃ b₁', b.attach e = .ok b₁' ∧ b₁'.unlined = b₁ := by
  obtain ⟨stack, root⟩ := b
  cases stack with
  | cons parent outer =>
    cases h
    exact ⟨_, rfl, by simp [unlined, Element.unlined_withChild]⟩
  | nil =>
    cases root with
    | none =>
      cases h
      exact ⟨_, rfl, rfl⟩
    | some root => cases h

lemma exists_of_unlined (h : b.unlined = ⟨e :: outer, root⟩) :
    ∃ e' outer', b.stack = e' :: outer' ∧ e'.unlined = e ∧
      (⟨outer', b.root⟩ : Builder).unlined = ⟨outer, root⟩ := by
  simp only [unlined, mk.injEq, map_eq_cons_iff] at h
  obtain ⟨⟨e', outer', hstack, he, rfl⟩, rfl⟩ := h
  exact ⟨e', outer', hstack, he, rfl⟩

lemma step_start (t : TagForm) (line : Nat) (b : Builder) :
    ∃ b₁, b.step line (.start t.chars) = .ok b₁ ∧
      b₁.unlined = ⟨t.element :: b.unlined.stack, b.unlined.root⟩ := by
  refine ⟨⟨{ t.element with line } :: b.stack, b.root⟩, ?_, rfl⟩
  rw [step, t.readTag_chars]
  rfl

lemma step_empty (t : TagForm) (line : Nat) (h : b.unlined.attach t.element = .ok b₁) :
    ∃ b₁', b.step line (.empty t.chars) = .ok b₁' ∧ b₁'.unlined = b₁ := by
  obtain ⟨b₁', hattach, hb₁⟩ := attach_unlined (e := { t.element with line }) h
  refine ⟨b₁', ?_, hb₁⟩
  rw [step, t.readTag_chars]
  exact hattach

lemma step_close (line : Nat) (hb : b.unlined = ⟨e :: outer, root⟩)
    (h : attach ⟨outer, root⟩ e = .ok b₁) :
    ∃ b₁', b.step line .close = .ok b₁' ∧ b₁'.unlined = b₁ := by
  obtain ⟨e', outer', hstack, rfl, houter⟩ := exists_of_unlined hb
  rw [← houter] at h
  obtain ⟨b₁', hattach, hb₁⟩ := attach_unlined h
  refine ⟨b₁', ?_, hb₁⟩
  rw [step, hstack]
  exact hattach

lemma step_text (s : Spelling textMarks) (line : Nat) (hb : b.unlined = ⟨e :: outer, root⟩) :
    ∃ b₁, b.step line (.text s.chars) = .ok b₁ ∧
      b₁.unlined = ⟨{ e with text := e.text ++ String.ofList s.text } :: outer, root⟩ := by
  obtain ⟨e', outer', hstack, rfl, houter⟩ := exists_of_unlined hb
  simp only [unlined, mk.injEq] at houter
  obtain ⟨rfl, rfl⟩ := houter
  refine ⟨⟨{ e' with text := e'.text ++ String.ofList s.text } :: outer', b.root⟩, ?_, ?_⟩
  · rw [step, s.unescape_chars (by decide)]
    simp [addText?, hstack, Except.mapError, bind, Except.bind, pure, Except.pure]
  · cases e'
    rfl

end Builder

/-- From these characters on, after any white space, and with these names and elements open, the
document is read to its end, and its root is the element, the lines aside. -/
def Parses (cs : List Char) (opened : List (List Char)) (b : Builder) (e : Element) : Prop :=
  ∀ source fuel lines offset (s : Space) b', b'.unlined = b →
    (cs.dropWhile isSpace).length + 2 ≤ fuel →
    ∃ d, readEvents source fuel lines ⟨s.chars ++ cs.dropWhile isSpace, offset, opened⟩ b' = .ok d ∧
      d.root.unlined = e

namespace Parses

variable {cs cs' : List Char} {opened opened' : List (List Char)} {b b₁ : Builder} {e : Element}

lemma space_iff (s : Space) : Parses (s.chars ++ cs) opened b e ↔ Parses cs opened b e := by
  unfold Parses
  rw [dropWhile_space]

lemma finish : Parses [] [] ⟨[], some e⟩ e := by
  intro source fuel lines offset s b hb hfuel
  obtain ⟨fuel, rfl⟩ : ∃ n, fuel = n + 1 := ⟨fuel - 1, by simp at hfuel; omega⟩
  obtain ⟨stack, root⟩ := b
  simp only [Builder.unlined, Builder.mk.injEq, map_eq_nil_iff, Option.map_eq_some_iff] at hb
  obtain ⟨rfl, root, rfl, rfl⟩ := hb
  have hnext : Reader.next ⟨s.chars ++ [], offset, []⟩ =
      .ok (.finish, ⟨[], offset + s.chars.length, []⟩) := by
    rw [Reader.next_space]
    rfl
  refine ⟨⟨root⟩, ?_, rfl⟩
  rw [readEvents, dropWhile_nil, hnext]
  rfl

lemma event (event : Event) (hfirm : StartsFirm cs)
    (hnext : ∀ offset, ∃ offset', Reader.next ⟨cs, offset, opened⟩ =
      .ok (event, ⟨cs', offset', opened'⟩))
    (hevent : event ≠ .finish)
    (hstep : ∀ line (b' : Builder), b'.unlined = b →
      ∃ b₁', b'.step line event = .ok b₁' ∧ b₁'.unlined = b₁)
    (hshorter : cs'.length < cs.length) (h : Parses cs' opened' b₁ e) : Parses cs opened b e := by
  intro source fuel lines offset s b' hb hfuel
  rw [hfirm.dropWhile_eq] at hfuel ⊢
  obtain ⟨fuel, rfl⟩ : ∃ n, fuel = n + 1 := ⟨fuel - 1, by omega⟩
  obtain ⟨offset', hnext⟩ := hnext (offset + s.chars.length)
  rw [readEvents, Reader.next_space, hnext]
  dsimp only
  rw [if_neg hevent]
  obtain ⟨b₁', hstep, hb₁⟩ := hstep (lines.lineAt (markFrom source offset)).1 b' hb
  rw [hstep]
  have hsplit : cs' = cs'.takeWhile isSpace ++ cs'.dropWhile isSpace :=
    (takeWhile_append_dropWhile ..).symm
  have hlength := length_dropWhile_le isSpace cs'
  obtain ⟨d, hd, he⟩ := h source fuel (lines.lineAt (markFrom source offset)).2 offset'
    ⟨cs'.takeWhile isSpace, fun c hc => mem_takeWhile_imp hc⟩ b₁' hb₁ (by omega)
  rw [← hsplit] at hd
  exact ⟨d, hd, he⟩

lemma skipped (hfirm : StartsFirm cs)
    (hnext : ∀ offset, ∃ offset', Reader.next ⟨cs, offset, opened⟩ =
      .ok (.skipped, ⟨cs', offset', opened⟩))
    (hshorter : cs'.length < cs.length) (h : Parses cs' opened b e) : Parses cs opened b e :=
  event .skipped hfirm hnext (by decide) (fun _ b' hb => ⟨b', rfl, hb⟩) hshorter h

lemma misc (m : Misc) (h : Parses cs opened b e) : Parses (m.chars ++ cs) opened b e := by
  cases m with
  | space s => exact (space_iff s).2 h
  | comment body hclosed =>
    refine skipped (startsFirm_mark _)
      (fun _ => Reader.next_comment hclosed cs) ?_ h
    · simp only [Misc.chars, length_append, length_cons]
      omega
  | instruction target data hdivided hclosed =>
    refine skipped (startsFirm_mark _)
      (fun _ => Reader.next_instruction hdivided hclosed cs) ?_ h
    · simp only [Misc.chars, length_append, length_cons]
      omega

lemma miscs (ms : List Misc) (h : Parses cs opened b e) :
    Parses (ms.flatMap Misc.chars ++ cs) opened b e := by
  induction ms with
  | nil => exact h
  | cons m ms ih =>
    rw [flatMap_cons, append_assoc]
    exact misc m ih

end Parses

lemma StartsMark.miscs {cs} (ms : List Misc) (h : StartsMark cs) :
    StartsMark (ms.flatMap Misc.chars ++ cs) := by
  induction ms with
  | nil => exact h
  | cons m ms ih =>
    rw [flatMap_cons, append_assoc]
    cases m with
    | space s =>
      obtain ⟨s', rest, hrest⟩ := ih
      refine ⟨⟨s.chars ++ s'.chars, fun c hc => ?_⟩, rest, ?_⟩
      · exact (mem_append.1 hc).elim (s.blank c) (s'.blank c)
      · rw [hrest, Misc.chars, append_assoc]
    | comment | instruction => exact ⟨.ofChars [] rfl, _, rfl⟩

lemma Form.startsMark (f : Form) (rest : List Char) : StartsMark (f.chars ++ rest) := by
  cases f with
  | empty | full =>
    rw [Form.chars, cons_append]
    exact ⟨.ofChars [] rfl, _, rfl⟩

lemma Forms.startsMark (fs : Forms) {rest} (h : StartsMark rest) :
    StartsMark (fs.chars ++ rest) := by
  cases fs with
  | nil after =>
    rw [Forms.chars]
    exact h.miscs after
  | cons before first others =>
    rw [Forms.chars, append_assoc, append_assoc]
    exact (first.startsMark _).miscs before

namespace Spelling

variable {marks : List Char} (s : Spelling marks)

lemma startsFirm (h : StartsFirm s.text) : StartsFirm s.chars := by
  obtain ⟨pieces, _⟩ := s
  cases pieces with
  | nil => exact h
  | cons p pieces =>
    intro c hc
    cases p with
    | plain d => exact h c hc
    | entity e =>
      cases hc
      rfl

lemma endsFirm (h : ∀ c ∈ s.text.getLast?, isSpace c = false) :
    ∀ c ∈ s.chars.getLast?, isSpace c = false := by
  obtain ⟨pieces, _⟩ := s
  unfold text chars at *
  dsimp only at h ⊢
  intro c hc
  rcases eq_nil_or_concat pieces with rfl | ⟨before, p, rfl⟩
  · cases hc
  · rw [map_concat, concat_eq_append, getLast?_concat] at h
    rw [concat_eq_append, flatMap_append, flatMap_singleton] at hc
    cases p with
    | plain d =>
      rw [Piece.chars, getLast?_concat] at hc
      exact h c hc
    | entity e =>
      rw [Piece.chars, ← cons_append, ← append_assoc, getLast?_concat] at hc
      cases hc
      rfl

lemma chars_ne_nil (h : s.text ≠ []) : s.chars ≠ [] := by
  obtain ⟨pieces, _⟩ := s
  cases pieces with
  | nil => exact absurd rfl h
  | cons p pieces =>
    unfold chars
    cases p <;> simp [Piece.chars]

end Spelling

lemma TextForm.parses (t : TextForm) {rest : List Char} {opened : List (List Char)}
    {current e : Element} {outer : List Element} {root : Option Element} (hrest : StartsMark rest)
    (hcurrent : current.text = "")
    (h : Parses rest opened
      ⟨{ current with text := String.ofList t.spelling.text } :: outer, root⟩ e) :
    Parses (t.chars ++ rest) opened ⟨current :: outer, root⟩ e := by
  rw [TextForm.chars, append_assoc]
  apply Parses.miscs
  obtain ⟨s, left, rfl⟩ := hrest
  rw [Parses.space_iff] at h
  have hmark : '<' ∉ t.spelling.chars := by
    refine t.spelling.not_mem_chars mem_cons_self fun e => ?_
    cases e <;> decide
  have hne := t.spelling.chars_ne_nil t.nonempty
  have hfirst := t.spelling.startsFirm t.first
  refine Parses.event (.text t.spelling.chars) (hfirst.append hne) (fun _ =>
    Reader.next_text hne hfirst (t.spelling.endsFirm t.last) hmark s left)
    (by simp) (fun line b hb => Builder.step_text t.spelling line hb) ?_ ?_
  · have := length_pos_of_ne_nil hne
    simp only [length_append, length_cons]
    omega
  · rw [hcurrent, String.empty_append]
    exact h

mutual

lemma Form.parses {rest opened b b₁ e} :
    (f : Form) → b.attach f.element = .ok b₁ → Parses rest opened b₁ e →
    Parses (f.chars ++ rest) opened b e
  | .empty tag, hattach, h => by
    have hchars : (Form.empty tag).chars ++ rest = '<' :: (tag.chars ++ '/' :: '>' :: rest) := by
      simp [Form.chars]
    rw [hchars]
    refine Parses.event (.empty tag.chars) (startsFirm_mark _)
      (fun _ => tag.next_empty rest) (by simp) ?_ ?_ h
    · rintro line b' rfl
      exact Builder.step_empty tag line hattach
    · simp only [length_cons, length_append]
      omega
  | .full tag text? children gap, hattach, h => by
    have hclose : Parses ('<' :: '/' :: (tag.nameChars ++ (gap.chars ++ '>' :: rest)))
        (tag.nameChars :: opened) ⟨(Form.full tag text? children gap).element :: b.stack, b.root⟩
        e := by
      refine Parses.event .close (startsFirm_mark _)
        (fun _ => tag.next_close gap rest) (by simp) ?_ ?_ h
      · intro line b' hb
        exact Builder.step_close line hb hattach
      · simp only [length_cons, length_append]
        omega
    let parent : Element := { tag.element with
      text := (text?.map fun t => String.ofList t.spelling.text).getD "" }
    have hchildren := @Forms.parses _ _ parent e b.stack b.root children hclose
    have htext : Parses ((text?.map TextForm.chars).getD [] ++ (children.chars ++
        '<' :: '/' :: (tag.nameChars ++ (gap.chars ++ '>' :: rest)))) (tag.nameChars :: opened)
        ⟨tag.element :: b.stack, b.root⟩ e := by
      cases text? with
      | none => exact hchildren
      | some t =>
        exact t.parses (children.startsMark ⟨.ofChars [] rfl, _, rfl⟩) rfl hchildren
    have hchars : (Form.full tag text? children gap).chars ++ rest =
        '<' :: (tag.chars ++ '>' :: ((text?.map TextForm.chars).getD [] ++ (children.chars ++
          '<' :: '/' :: (tag.nameChars ++ (gap.chars ++ '>' :: rest))))) := by
      simp [Form.chars]
    rw [hchars]
    refine Parses.event (.start tag.chars) (startsFirm_mark _)
      (fun _ => tag.next_start _) (by simp) ?_ ?_ htext
    · rintro line b' rfl
      exact Builder.step_start tag line b'
    · simp only [length_cons, length_append]
      omega

lemma Forms.parses {rest opened parent e outer root} : (fs : Forms) →
    Parses rest opened
      ⟨{ parent with children := parent.children ++ fs.elements } :: outer, root⟩ e →
    Parses (fs.chars ++ rest) opened ⟨parent :: outer, root⟩ e
  | .nil after, h => by
    rw [Forms.elements, append_nil] at h
    rw [Forms.chars]
    cases parent
    exact h.miscs after
  | .cons before first others, h => by
    rw [Forms.chars, append_assoc, append_assoc]
    apply Parses.miscs
    apply Form.parses first rfl
    apply Forms.parses others
    rw [Element.withChild, append_assoc]
    exact h

end

namespace DocumentForm

variable (f : DocumentForm)

lemma parses : Parses f.chars [] .start f.root.element := by
  have hend : Parses (f.after.flatMap Misc.chars ++ []) [] ⟨[], some f.root.element⟩
      f.root.element := Parses.finish.miscs f.after
  rw [append_nil] at hend
  exact (f.root.parses rfl hend).miscs f.before

lemma startsMark : StartsMark f.chars :=
  (f.root.startsMark _).miscs f.before

lemma ofText_chars : Reader.ofText f.chars = ⟨f.chars, 0, []⟩ := by
  obtain ⟨⟨space, blank⟩, rest, hchars⟩ := f.startsMark
  rw [hchars]
  cases space with
  | nil => rfl
  | cons c space =>
    have hc : c.toNat ≠ 0xFEFF := by
      intro hmark
      have hspace := blank c mem_cons_self
      rw [← Char.ofNat_toNat c, hmark] at hspace
      exact absurd hspace (by decide)
    simp [Reader.ofText, hc]

lemma readDocument_chars :
    ∃ d, readDocument (String.ofList f.chars) = .ok d ∧ d.root.unlined = f.root.element := by
  have hsplit : f.chars = f.chars.takeWhile isSpace ++ f.chars.dropWhile isSpace :=
    (takeWhile_append_dropWhile ..).symm
  have hlength := length_dropWhile_le isSpace f.chars
  have hread := f.parses (String.ofList f.chars).toUTF8.toList (f.chars.length + 2)
    (.ofBytes (String.ofList f.chars).toUTF8.toList) 0
    ⟨f.chars.takeWhile isSpace, fun c hc => mem_takeWhile_imp hc⟩ .start rfl (by omega)
  rw [← hsplit] at hread
  rw [readDocument, String.toList_ofList, f.ofText_chars]
  exact hread

end DocumentForm

/-- A tree whose names are names without a colon and whose texts have no white space at their ends
can be written, and is read back from whatever it is written as, the lines aside. -/
theorem readDocument_written (e : Element) (he : isWritable e = true) :
    (∃ f : DocumentForm, f.root.element = e.unlined) ∧
    ∀ f : DocumentForm, f.root.element = e.unlined →
      ∃ d, readDocument (String.ofList f.chars) = .ok d ∧ d.root.unlined = e.unlined := by
  constructor
  · obtain ⟨root, hroot⟩ := Form.exists_element e he
    exact ⟨⟨[], root, []⟩, hroot⟩
  · intro f hf
    rw [← hf]
    exact f.readDocument_chars

def boxedView : Element :=
  { tag := "view", attributes := [⟨"name", "A&\"B\""⟩], children := [{ tag := "box" }],
    text := "a < b" }

def boxedViewForm : DocumentForm where
  before := [.instruction (.ofChars 'x' ['m', 'l'] (by decide)) [' ', 'v'] (by simp [isSpace])
    (by decide), .space (.ofChars ['\n'] rfl)]
  root := .full
    { space? := some (.ofChars 'v' [] (by decide))
      name := .ofChars 'v' ['i', 'e', 'w'] (by decide)
      attributes := [
        { gap := .ofChars [' '] rfl
          divided := by decide
          key := .declaration (some (.ofChars 'v' [] (by decide)))
          before := .ofChars [] rfl
          after := .ofChars [] rfl
          quote := .double
          value := ⟨[.plain 'u', .plain '>'], by simp [textMarks, Quote.char]⟩ },
        { gap := .ofChars [' '] rfl
          divided := by decide
          key := .named (some (.ofChars 'v' [] (by decide)))
            (.ofChars 'n' ['a', 'm', 'e'] (by decide)) (by decide) (by decide)
          before := .ofChars [' '] rfl
          after := .ofChars ['\t'] rfl
          quote := .single
          value := ⟨[.plain 'A', .entity .amp, .plain '"', .plain 'B', .entity .quot],
            by simp [textMarks, Quote.char]⟩ }]
      distinct := by decide
      gap := .ofChars [' '] rfl }
    (some
      { before := [.comment ['-', 'x'] (by decide)]
        spelling := ⟨[.plain 'a', .plain ' ', .entity .lt, .plain ' ', .plain 'b'],
          by simp [textMarks]⟩
        nonempty := by decide
        first := by simp [Spelling.text, Piece.char, isSpace]
        last := by simp [Spelling.text, Piece.char, isSpace] })
    (.cons [.space (.ofChars [' '] rfl)] (.empty
      { space? := none, name := .ofChars 'b' ['o', 'x'] (by decide), attributes := [],
        distinct := by decide, gap := .ofChars [] rfl }) (.nil []))
    (.ofChars [] rfl)
  after := []

theorem readDocument_boxedView : isWritable boxedView = true ∧
    String.ofList boxedViewForm.chars = "<?xml v?>\n<v:view xmlns:v=\"u>\" v:name =\t" ++
      "\x27A&amp;\"B&quot;\x27 ><!---x-->a &lt; b <box/></v:view>" ∧
    ∃ d, readDocument (String.ofList boxedViewForm.chars) = .ok d ∧
      d.root.unlined = boxedView.unlined :=
  ⟨by decide, by decide, (readDocument_written boxedView (by decide)).2 boxedViewForm rfl⟩

end Markup

end SceneView
