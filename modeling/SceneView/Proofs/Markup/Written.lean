import Mathlib.Data.List.Nodup
import SceneView.Markup.Document

/-!
# Written trees

The ways to write a tree of elements as markup. Names may stand in a namespace, and namespaces are
declared on any element; values and texts are spelled with references where the author likes; an
element without content has two forms; comments, instructions and white space stand between tags.
A form knows the characters it is written with and the tree that it stands for.
-/

namespace SceneView

mutual

def Element.unlined : Element → Element
  | ⟨tag, attributes, children, text, _⟩ =>
    ⟨tag, attributes, Element.unlinedAll children, text, 0⟩

def Element.unlinedAll : List Element → List Element
  | [] => []
  | e :: es => e.unlined :: Element.unlinedAll es

end

namespace Markup

/-- The codes of the characters that names begin with, from the first to the last of each range. The
colon is left out: it divides a name from the namespace before it. -/
def nameStartRanges : List (Nat × Nat) :=
  [(0x41, 0x5A), (0x5F, 0x5F), (0x61, 0x7A), (0xC0, 0xD6), (0xD8, 0xF6), (0xF8, 0x2FF),
    (0x370, 0x37D), (0x37F, 0x1FFF), (0x200C, 0x200D), (0x2070, 0x218F), (0x2C00, 0x2FEF),
    (0x3001, 0xD7FF), (0xF900, 0xFDCF), (0xFDF0, 0xFFFD), (0x10000, 0xEFFFF)]

/-- The codes of the other characters of names. -/
def namePartRanges : List (Nat × Nat) :=
  [(0x2D, 0x2E), (0x30, 0x39), (0xB7, 0xB7), (0x300, 0x36F), (0x203F, 0x2040)]

def isInRanges (ranges : List (Nat × Nat)) (c : Char) : Bool :=
  ranges.any fun (first, last) => first ≤ c.toNat && c.toNat ≤ last

def isNameStart (c : Char) : Bool :=
  isInRanges nameStartRanges c

def isNamePart (c : Char) : Bool :=
  isInRanges (nameStartRanges ++ namePartRanges) c

/-- A name without a colon. -/
structure Name where
  first : Char
  others : List Char
  start : isNameStart first = true
  parts : ∀ c ∈ others, isNamePart c = true

def Name.chars (n : Name) : List Char := n.first :: n.others

def isName : List Char → Bool
  | [] => false
  | c :: cs => isNameStart c && cs.all isNamePart

def Name.ofChars (c : Char) (cs : List Char) (h : isName (c :: cs) = true) : Name :=
  ⟨c, cs, (Bool.and_eq_true_iff.1 h).1, List.all_eq_true.1 (Bool.and_eq_true_iff.1 h).2⟩

lemma Name.exists_chars {cs} (h : isName cs = true) : ∃ n : Name, n.chars = cs := by
  cases cs with
  | nil => cases h
  | cons c cs => exact ⟨.ofChars c cs h, rfl⟩

/-- The characters of a name in a namespace, if one is given. -/
def qualified (space? : Option Name) (n : Name) : List Char :=
  match space? with
  | some space => space.chars ++ ':' :: n.chars
  | none => n.chars

structure Space where
  chars : List Char
  blank : ∀ c ∈ chars, isSpace c = true

def Space.ofChars (cs : List Char) (h : cs.all isSpace = true) : Space :=
  ⟨cs, List.all_eq_true.1 h⟩

/-- The marks that have a name. -/
inductive Entity where
  | lt | gt | amp | apos | quot

namespace Entity

def char : Entity → Char
  | lt => '<'
  | gt => '>'
  | amp => '&'
  | apos => '\x27'
  | quot => '"'

def name : Entity → List Char
  | lt => "lt".toList
  | gt => "gt".toList
  | amp => "amp".toList
  | apos => "apos".toList
  | quot => "quot".toList

end Entity

/-- A character of a text, written as it is or by the name of its mark. -/
inductive Piece where
  | plain (c : Char)
  | entity (e : Entity)

namespace Piece

def char : Piece → Char
  | plain c => c
  | entity e => e.char

def chars : Piece → List Char
  | plain c => [c]
  | entity e => '&' :: (e.name ++ [';'])

end Piece

/-- A text in which some marks are not written as they are. -/
structure Spelling (marks : List Char) where
  pieces : List Piece
  free : ∀ c, .plain c ∈ pieces → c ∉ marks

namespace Spelling

variable {marks : List Char}

def text (s : Spelling marks) : List Char := s.pieces.map Piece.char

def chars (s : Spelling marks) : List Char := s.pieces.flatMap Piece.chars

lemma exists_text (hmarks : ∀ c ∈ marks, ∃ e : Entity, e.char = c) (cs : List Char) :
    ∃ s : Spelling marks, s.text = cs := by
  induction cs with
  | nil => exact ⟨⟨[], by simp⟩, rfl⟩
  | cons c cs ih =>
    obtain ⟨s, rfl⟩ := ih
    by_cases hc : c ∈ marks
    · obtain ⟨e, rfl⟩ := hmarks c hc
      exact ⟨⟨.entity e :: s.pieces, fun d hd => s.free d (by simpa using hd)⟩, rfl⟩
    · refine ⟨⟨.plain c :: s.pieces, fun d hd => ?_⟩, rfl⟩
      rcases List.mem_cons.1 hd with heq | hd
      · cases heq
        exact hc
      · exact s.free d hd

end Spelling

/-- The marks that are never written as they are in a text. -/
def textMarks : List Char := ['<', '&']

lemma exists_entity_of_mem_textMarks {c} (h : c ∈ textMarks) : ∃ e : Entity, e.char = c := by
  rcases List.mem_pair.1 h with rfl | rfl
  · exact ⟨.lt, rfl⟩
  · exact ⟨.amp, rfl⟩

inductive Quote where
  | single | double

def Quote.char : Quote → Char
  | single => '\x27'
  | double => '"'

def xmlns : List Char := "xmlns".toList

/-- What stands before the equals sign in a tag: the name of an attribute, or that of a declaration
of the default namespace or another one. -/
inductive Key where
  | named (space? : Option Name) (name : Name) (hspace : ∀ space ∈ space?, space.chars ≠ xmlns)
    (hname : name.chars ≠ xmlns)
  | declaration (space? : Option Name)

def Key.chars : Key → List Char
  | named space? name _ _ => qualified space? name
  | declaration none => xmlns
  | declaration (some space) => xmlns ++ ':' :: space.chars

/-- An attribute or a declaration in a tag, with the white space before it and around its equals
sign. -/
structure AttributeForm where
  gap : Space
  divided : gap.chars ≠ []
  key : Key
  before : Space
  after : Space
  quote : Quote
  value : Spelling (quote.char :: textMarks)

namespace AttributeForm

def quoted (a : AttributeForm) : List Char :=
  a.quote.char :: (a.value.chars ++ [a.quote.char])

def chars (a : AttributeForm) : List Char :=
  a.gap.chars ++ (a.key.chars ++ (a.before.chars ++ '=' :: (a.after.chars ++ a.quoted)))

def attribute? (a : AttributeForm) : Option Attribute :=
  match a.key with
  | .named _ name _ _ => some ⟨String.ofList name.chars, String.ofList a.value.text⟩
  | .declaration _ => none

lemma exists_attribute? {a} (hname : isName a.name.toList = true) (hxmlns : a.name.toList ≠ xmlns) :
    ∃ form : AttributeForm, form.attribute? = some a ∧ form.key.chars = a.name.toList := by
  obtain ⟨name, value⟩ := a
  obtain ⟨n, hn⟩ := Name.exists_chars hname
  have hmarks : ∀ c ∈ Quote.double.char :: textMarks, ∃ e : Entity, e.char = c := by
    intro c hc
    rcases List.mem_cons.1 hc with rfl | hc
    · exact ⟨.quot, rfl⟩
    · exact exists_entity_of_mem_textMarks hc
  obtain ⟨v, hv⟩ := Spelling.exists_text hmarks value.toList
  refine ⟨⟨.ofChars [' '] rfl, by decide, .named none n (by simp) (hn ▸ hxmlns), .ofChars [] rfl,
    .ofChars [] rfl, .double, v⟩, ?_, hn⟩
  simp only [attribute?, hn, hv, String.ofList_toList]

end AttributeForm

/-- An opening tag between its marks. -/
structure TagForm where
  space? : Option Name
  name : Name
  attributes : List AttributeForm
  distinct : (attributes.map (·.key.chars)).Nodup
  gap : Space

namespace TagForm

def nameChars (t : TagForm) : List Char := qualified t.space? t.name

def chars (t : TagForm) : List Char :=
  t.nameChars ++ (t.attributes.flatMap AttributeForm.chars ++ t.gap.chars)

def element (t : TagForm) : Element :=
  { tag := String.ofList t.name.chars
    attributes := t.attributes.filterMap AttributeForm.attribute? }

lemma exists_element {tag attributes} (htag : isName tag.toList = true)
    (hattributes : ∀ a ∈ attributes, isName a.name.toList = true ∧ a.name.toList ≠ xmlns)
    (hdistinct : (attributes.map (·.name)).Nodup) :
    ∃ t : TagForm, t.element = { tag, attributes } := by
  have hforms : ∃ forms : List AttributeForm,
      forms.filterMap AttributeForm.attribute? = attributes ∧
        forms.map (·.key.chars) = attributes.map (·.name.toList) := by
    clear hdistinct
    induction attributes with
    | nil => exact ⟨[], rfl, rfl⟩
    | cons a as ih =>
      obtain ⟨ha, has⟩ := List.forall_mem_cons.1 hattributes
      obtain ⟨form, hform, hkey⟩ := AttributeForm.exists_attribute? ha.1 ha.2
      obtain ⟨forms, hforms, hkeys⟩ := ih has
      refine ⟨form :: forms, ?_, ?_⟩
      · rw [List.filterMap_cons_some hform, hforms]
      · rw [List.map_cons, List.map_cons, hkey, hkeys]
  obtain ⟨n, hn⟩ := Name.exists_chars htag
  obtain ⟨forms, rfl, hkeys⟩ := hforms
  have hnodup : (forms.map (·.key.chars)).Nodup := by
    rw [hkeys, ← Function.comp_def String.toList, ← List.map_map]
    exact hdistinct.map fun _ _ => String.toList_injective
  refine ⟨⟨none, n, forms, hnodup, .ofChars [] rfl⟩, ?_⟩
  rw [element, hn, String.ofList_toList]

end TagForm

/-- What may stand between tags. The end of a comment or an instruction does not stand inside it. -/
inductive Misc where
  | space (s : Space)
  | comment (body : List Char) (closed : ¬ ['-', '-'] <:+: body ++ ['-'])
  | instruction (target : Name) (data : List Char) (divided : ∀ c ∈ data.head?, isSpace c = true)
    (closed : ¬ ['?', '>'] <:+: data)

def Misc.chars : Misc → List Char
  | space s => s.chars
  | comment body _ => '<' :: '!' :: '-' :: '-' :: (body ++ ['-', '-', '>'])
  | instruction target data _ _ => '<' :: '?' :: (target.chars ++ (data ++ ['?', '>']))

/-- The text of an element in one run, which neither begins nor ends with white space. -/
structure TextForm where
  before : List Misc
  spelling : Spelling textMarks
  nonempty : spelling.text ≠ []
  first : ∀ c ∈ spelling.text.head?, isSpace c = false
  last : ∀ c ∈ spelling.text.getLast?, isSpace c = false

def TextForm.chars (t : TextForm) : List Char :=
  t.before.flatMap Misc.chars ++ t.spelling.chars

mutual

/-- An element as it is written. -/
inductive Form where
  | empty (tag : TagForm)
  | full (tag : TagForm) (text? : Option TextForm) (children : Forms) (gap : Space)

/-- Elements with what stands between them. -/
inductive Forms where
  | nil (after : List Misc)
  | cons (before : List Misc) (first : Form) (rest : Forms)

end

mutual

def Form.chars : Form → List Char
  | .empty tag => '<' :: (tag.chars ++ ['/', '>'])
  | .full tag text? children gap =>
    '<' :: (tag.chars ++ '>' :: ((text?.map TextForm.chars).getD [] ++ (children.chars ++
      '<' :: '/' :: (tag.nameChars ++ (gap.chars ++ ['>'])))))

def Forms.chars : Forms → List Char
  | .nil after => after.flatMap Misc.chars
  | .cons before first rest => before.flatMap Misc.chars ++ (first.chars ++ rest.chars)

end

mutual

def Form.element : Form → Element
  | .empty tag => tag.element
  | .full tag text? children _ =>
    { tag.element with
      text := (text?.map fun t => String.ofList t.spelling.text).getD ""
      children := children.elements }

def Forms.elements : Forms → List Element
  | .nil _ => []
  | .cons _ first rest => first.element :: rest.elements

end

def isTrimmed (cs : List Char) : Bool :=
  cs.head?.all (!isSpace ·) && cs.getLast?.all (!isSpace ·)

lemma TextForm.exists_text {cs} (hne : cs ≠ []) (h : isTrimmed cs = true) :
    ∃ t : TextForm, t.spelling.text = cs := by
  obtain ⟨hfirst, hlast⟩ := Bool.and_eq_true_iff.1 h
  obtain ⟨s, rfl⟩ := Spelling.exists_text (fun c => exists_entity_of_mem_textMarks) cs
  refine ⟨⟨[], s, hne, fun c hc => ?_, fun c hc => ?_⟩, rfl⟩
  · simpa [Option.mem_def.1 hc] using hfirst
  · simpa [Option.mem_def.1 hc] using hlast

mutual

/-- Whether all tags and attributes of the element have names without a colon, no attribute is named
like a declaration or like another one of its element, and no text has white space at its ends. -/
def isWritable : Element → Bool
  | ⟨tag, attributes, children, text, _⟩ =>
    isName tag.toList &&
      attributes.all (fun a => isName a.name.toList && a.name.toList != xmlns) &&
      decide (attributes.map (·.name)).Nodup && isTrimmed text.toList && areWritable children

def areWritable : List Element → Bool
  | [] => true
  | e :: es => isWritable e && areWritable es

end

mutual

lemma Form.exists_element : (e : Element) → isWritable e = true → ∃ f : Form, f.element = e.unlined
  | ⟨tag, attributes, children, text, _⟩, h => by
    simp only [isWritable, Bool.and_eq_true, List.all_eq_true, bne_iff_ne, decide_eq_true_eq] at h
    obtain ⟨⟨⟨⟨htag, hattributes⟩, hdistinct⟩, htext⟩, hchildren⟩ := h
    obtain ⟨t, ht⟩ := TagForm.exists_element htag hattributes hdistinct
    obtain ⟨fs, hfs⟩ := Forms.exists_elements children hchildren
    have htext? : ∃ text? : Option TextForm,
        (text?.map fun t => String.ofList t.spelling.text).getD "" = text := by
      by_cases hempty : text.toList = []
      · exact ⟨none, (String.toList_eq_nil_iff.1 hempty).symm⟩
      · obtain ⟨t, ht⟩ := TextForm.exists_text hempty htext
        exact ⟨some t, by simp [ht]⟩
    obtain ⟨text?, htext?⟩ := htext?
    refine ⟨.full t text? fs (.ofChars [] rfl), ?_⟩
    rw [Form.element, ht, hfs, htext?, Element.unlined]

lemma Forms.exists_elements : (es : List Element) → areWritable es = true →
    ∃ fs : Forms, fs.elements = Element.unlinedAll es
  | [], _ => ⟨.nil [], rfl⟩
  | e :: es, h => by
    obtain ⟨he, hes⟩ := Bool.and_eq_true_iff.1 h
    obtain ⟨f, hf⟩ := Form.exists_element e he
    obtain ⟨fs, hfs⟩ := Forms.exists_elements es hes
    exact ⟨.cons [] f fs, by rw [Forms.elements, hf, hfs, Element.unlinedAll]⟩

end

structure DocumentForm where
  before : List Misc
  root : Form
  after : List Misc

def DocumentForm.chars (d : DocumentForm) : List Char :=
  d.before.flatMap Misc.chars ++ (d.root.chars ++ d.after.flatMap Misc.chars)

end Markup

end SceneView
