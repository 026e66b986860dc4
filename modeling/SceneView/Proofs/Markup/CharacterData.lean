import Mathlib.Logic.Relation
import SceneView.Proofs.Markup.Source

/-!
# Character data

The character data of a source is the text of its runs and its literal data. All of it that stands
in an element goes to the text of the innermost one, in order, so nothing inside the root is lost.
Where no element is open, text is refused, but literal data is passed over like a comment: that is
the only character data that a document does not keep.
-/

namespace SceneView

open List

namespace Element

variable (f : Nat → Nat)

mutual

lemma texts_relined (e : Element) :
    (e.relined f).inOrder.map (·.text.toList) = e.inOrder.map (·.text.toList) := by
  cases e with
  | mk tag attributes children text line =>
    rw [relined, inOrder, inOrder, map_cons, map_cons, texts_relinedAll children]

lemma texts_relinedAll (es : List Element) :
    (allInOrder (relinedAll f es)).map (·.text.toList) =
      (allInOrder es).map (·.text.toList) := by
  cases es with
  | nil => rfl
  | cons e es =>
    rw [relinedAll, allInOrder, allInOrder, map_append, map_append, texts_relined e,
      texts_relinedAll es]

end

end Element

namespace Markup

/-- The text and literal data directly in the element. -/
def ElementSource.text : ElementSource → List Char
  | .empty _ _ => []
  | .full _ _ content _ _ _ => content.text

mutual

/-- The element and those in it, each before what it holds. -/
def ElementSource.inOrder : ElementSource → List ElementSource
  | .empty tag nonempty => [.empty tag nonempty]
  | .full tag endsOpen content closing closed named =>
    .full tag endsOpen content closing closed named :: content.inOrder

def ContentSource.inOrder : ContentSource → List ElementSource
  | .last _ => []
  | .aside _ _ rest => rest.inOrder
  | .child _ x rest => x.inOrder ++ rest.inOrder

end

mutual

/-- All text and literal data in the element, as it stands in the source. -/
def ElementSource.characters : ElementSource → List Char
  | .empty _ _ => []
  | .full _ _ content _ _ _ => content.characters

def ContentSource.characters : ContentSource → List Char
  | .last run => run.text
  | .aside run a rest => run.text ++ (a.content ++ rest.characters)
  | .child run x rest => run.text ++ (x.characters ++ rest.characters)

end

/-- The literal data outside the root. -/
def Margin.characters : Margin → List Char
  | .last _ => []
  | .aside _ a rest => a.content ++ rest.characters

def DocumentSource.characters (t : DocumentSource) : List Char :=
  t.before.characters ++ (t.root.characters ++ t.after.characters)

mutual

lemma ElementSource.texts_element (x : ElementSource) (before : List Char) :
    (x.element before).inOrder.map (·.text.toList) = x.inOrder.map ElementSource.text := by
  match x with
  | .empty tag nonempty =>
    obtain ⟨hchildren, htext, -⟩ := readTag_bare tag.read
    simp [ElementSource.element, Element.inOrder, Element.allInOrder, ElementSource.inOrder,
      ElementSource.text, hchildren, htext]
  | .full tag endsOpen content closing closed named =>
    simp [ElementSource.element, Element.inOrder, ElementSource.inOrder, ElementSource.text,
      content.texts_elements]

lemma ContentSource.texts_elements (c : ContentSource) (before : List Char) :
    (Element.allInOrder (c.elements before)).map (·.text.toList) =
      c.inOrder.map ElementSource.text := by
  match c with
  | .last run => rfl
  | .aside run a c => exact c.texts_elements _
  | .child run x c =>
    rw [ContentSource.elements, Element.allInOrder, map_append, x.texts_element,
      c.texts_elements, ContentSource.inOrder, map_append]

end

mutual

lemma ElementSource.perm_characters (x : ElementSource) :
    (x.inOrder.flatMap ElementSource.text).Perm x.characters := by
  match x with
  | .empty tag nonempty => exact .refl []
  | .full tag endsOpen content closing closed named => exact content.perm_characters

lemma ContentSource.perm_characters (c : ContentSource) :
    (c.text ++ c.inOrder.flatMap ElementSource.text).Perm c.characters := by
  match c with
  | .last run => exact .of_eq (append_nil _)
  | .aside run a c =>
    rw [ContentSource.text, ContentSource.characters, append_assoc, append_assoc]
    exact (c.perm_characters.append_left _).append_left _
  | .child run x c =>
    rw [ContentSource.text, ContentSource.inOrder, ContentSource.characters, append_assoc,
      flatMap_append]
    refine .append_left _ (.trans ?_ (x.perm_characters.append c.perm_characters))
    rw [← append_assoc, ← append_assoc]
    exact perm_append_comm.append_right _

end

lemma DocumentSource.perm_characters_iff (t : DocumentSource) :
    (t.root.inOrder.flatMap ElementSource.text).Perm t.characters ↔
      t.before.characters = [] ∧ t.after.characters = [] := by
  have hroot := t.root.perm_characters
  constructor
  · intro hall
    have hlength := (hroot.symm.trans hall).length_eq
    rw [DocumentSource.characters, length_append, length_append] at hlength
    rw [← length_eq_zero_iff, ← length_eq_zero_iff]
    omega
  · rintro ⟨hbefore, hafter⟩
    rw [DocumentSource.characters, hbefore, hafter, nil_append, append_nil]
    exact hroot

/-- Reading events one after the other leads from one place to another. -/
def Reader.Reaches : Reader → Reader → Prop :=
  Relation.ReflTransGen fun r r' => ∃ event, event ≠ .finish ∧ r.next = .ok (event, r')

section Events

variable {source : List UInt8} {fuel : Nat} {lines : Text.LineCounter} {r r' : Reader}
  {b : Builder} {d : Document}

lemma readEvents_next {event : Event} (hnext : r.next = .ok (event, r')) (hevent : event ≠ .finish)
    (h : readEvents source fuel lines r b = .ok d) :
    ∃ fuel' lines' line b', b.step line event = .ok b' ∧
      readEvents source fuel' lines' r' b' = .ok d := by
  cases fuel with
  | zero => cases h
  | succ fuel =>
    rw [readEvents, hnext] at h
    dsimp only at h
    rw [if_neg hevent] at h
    split at h
    · cases h
    · next b' hstep => exact ⟨fuel, _, _, b', hstep, h⟩

lemma readEvents_reaches (hfits : b.stack.length = r.opened.length)
    (h : readEvents source fuel lines r b = .ok d) (hreaches : r.Reaches r') :
    ∃ fuel' lines' b', b'.stack.length = r'.opened.length ∧
      readEvents source fuel' lines' r' b' = .ok d := by
  induction hreaches with
  | refl => exact ⟨fuel, lines, b, hfits, h⟩
  | tail _ hnext ih =>
    obtain ⟨event, hevent, hnext⟩ := hnext
    obtain ⟨fuel₁, lines₁, b₁, hfits₁, h₁⟩ := ih
    obtain ⟨fuel₂, lines₂, line, b₂, hstep, h₂⟩ := readEvents_next hnext hevent h₁
    obtain ⟨s, ⟨hfinish, -⟩ | ⟨cs, -, -, hlexeme⟩⟩ := Reader.exists_lexeme hnext
    · exact absurd hfinish hevent
    · exact ⟨fuel₂, lines₂, b₂, Builder.fits_of_step hlexeme hstep hfits₁, h₂⟩

end Events

lemma readDocument_stray {s : String} {r r' : Reader} {raw : List Char}
    (hreaches : (Reader.ofText s.toList).Reaches r) (hopened : r.opened = [])
    (hnext : r.next = .ok (.text raw, r')) : ∃ found, readDocument s = .error found := by
  cases h : readDocument s with
  | error found => exact ⟨found, rfl⟩
  | ok d =>
    obtain ⟨fuel, lines, b, hfits, hread⟩ := readEvents_reaches rfl h hreaches
    obtain ⟨_, _, _, b', hstep, -⟩ := readEvents_next hnext nofun hread
    obtain ⟨_, e, outer, -, hb, -⟩ := Builder.step_text_eq_ok hstep
    rw [hb, hopened] at hfits
    cases hfits

/-- A document that is read has one root, and the text of each element is the text and literal data
directly in it. Nothing else is lost than literal data outside the root; text is refused there. -/
theorem character_data_kept_iff (s : String) :
    (∀ d, readDocument s = .ok d → ∃ t : DocumentSource,
      t.chars = (Reader.ofText s.toList).rest ∧
      d.root.relined (fun _ => 0) = t.document.root.relined (fun _ => 0) ∧
      d.root.inOrder.map (·.text.toList) = t.root.inOrder.map ElementSource.text ∧
      ((d.root.inOrder.flatMap (·.text.toList)).Perm t.characters ↔
        t.before.characters = [] ∧ t.after.characters = [])) ∧
    ∀ r r' raw, (Reader.ofText s.toList).Reaches r → r.opened = [] →
      r.next = .ok (.text raw, r') → ∃ found, readDocument s = .error found := by
  refine ⟨fun d hd => ?_, fun r r' raw => readDocument_stray⟩
  obtain ⟨t, ht, hroot⟩ := exists_source_of_read hd
  have htexts : d.root.inOrder.map (·.text.toList) = t.root.inOrder.map ElementSource.text := by
    rw [← Element.texts_relined (fun _ => 0), hroot, Element.texts_relined]
    exact t.root.texts_element _
  refine ⟨t, ht, hroot, htexts, ?_⟩
  rw [← t.perm_characters_iff, List.flatMap_def, htexts, ← List.flatMap_def]

/-- A text with literal data in the root, and one with text before the root. -/
theorem nested_text_kept :
    (∃ d, readDocument "<a>x<b>y</b><![CDATA[ z]]></a>" = .ok d ∧ ∃ t : DocumentSource,
      t.chars = "<a>x<b>y</b><![CDATA[ z]]></a>".toList ∧
      d.root.inOrder.map (·.text.toList) = t.root.inOrder.map ElementSource.text ∧
      [['x', ' ', 'z'], ['y']] = t.root.inOrder.map ElementSource.text) ∧
    ∃ found, readDocument "x<a/>" = .error found := by
  have hread : readDocument "<a>x<b>y</b><![CDATA[ z]]></a>" =
      .ok ⟨{ tag := "a", text := "x z", line := 1,
             children := [{ tag := "b", text := "y", line := 1 }] }⟩ := by
    rw [readDocument, Text.toList_toUTF8]
    rfl
  obtain ⟨t, ht, -, htexts, -⟩ := (character_data_kept_iff _).1 _ hread
  refine ⟨⟨_, hread, t, ht, htexts, htexts ▸ rfl⟩, ?_⟩
  exact (character_data_kept_iff "x<a/>").2 _ _ _ .refl rfl rfl

/-- Literal data before the root is dropped. -/
theorem literal_data_dropped :
    readDocument "<![CDATA[x]]><a/>" = .ok ⟨{ tag := "a", line := 1 }⟩ := by
  rw [readDocument, Text.toList_toUTF8]
  rfl

end Markup

end SceneView
