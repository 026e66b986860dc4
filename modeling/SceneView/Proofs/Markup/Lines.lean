import SceneView.Proofs.Bytes
import SceneView.Proofs.Markup.Lexeme

/-!
# Lines and byte order marks

The line counter answers for each offset with the line feeds before it, whatever it was asked
before. Reading a document is thus reading it with places in place of lines, and looking the places
up in the text. A byte order mark is dropped before places are counted and kept where they are
looked up: all that is read stays the same, but every line is that of a place three bytes earlier.
-/

open List

namespace SceneView

namespace Text

/-- The line of an offset: one more than there are line feeds before it. -/
def lineOf (source : List UInt8) (offset : Nat) : Nat :=
  1 + lineFeeds (source.take offset)

lemma lineFeeds_append (bytes bytes' : List UInt8) :
    lineFeeds (bytes ++ bytes') = lineFeeds bytes + lineFeeds bytes' :=
  count_append

lemma lineOf_add (source : List UInt8) (offset count : Nat) :
    lineOf source (offset + count) =
      lineOf source offset + lineFeeds ((source.drop offset).take count) := by
  rw [lineOf, take_add, lineFeeds_append, lineOf, Nat.add_assoc]

lemma lineOf_append_left {bytes} (h : lineFeeds bytes = 0) (bytes' : List UInt8) (offset : Nat) :
    lineOf (bytes ++ bytes') (bytes.length + offset) = lineOf bytes' offset := by
  rw [lineOf, take_length_add_append, lineFeeds_append, h, Nat.zero_add, lineOf]

namespace LineCounter

/-- The counter knows the line of an offset of the text. -/
structure Stands (counter : LineCounter) (source : List UInt8) : Prop where
  source_eq : counter.source = source
  offset_le : counter.offset ≤ source.length
  line_eq : counter.line = lineOf source counter.offset

lemma Stands.ofBytes (source : List UInt8) : (LineCounter.ofBytes source).Stands source :=
  ⟨rfl, Nat.zero_le _, rfl⟩

lemma Stands.lineAt {counter : LineCounter} {source} (h : counter.Stands source) (offset : Nat) :
    (counter.lineAt offset).1 = lineOf source offset ∧ (counter.lineAt offset).2.Stands source := by
  obtain ⟨text, known, line⟩ := counter
  obtain ⟨htext, -, hline⟩ := h
  dsimp only at htext hline
  subst htext
  have hmin : lineOf text (min offset text.length) = lineOf text offset := by
    rw [lineOf, ← take_eq_take_min, lineOf]
  have hanswer : (LineCounter.lineAt ⟨text, known, line⟩ offset).1 = lineOf text offset := by
    rw [← hmin, LineCounter.lineAt]
    dsimp only
    split
    · next hforward => rw [hline, ← lineOf_add, Nat.add_sub_cancel' hforward]
    · next hback =>
      have hadd := lineOf_add text (min offset text.length) (known - min offset text.length)
      rw [Nat.add_sub_cancel' (Nat.le_of_not_le hback), ← hline] at hadd
      rw [hadd, Nat.add_sub_cancel]
  exact ⟨hanswer, rfl, Nat.min_le_right _ _, hanswer.trans hmin.symm⟩

/-- The answers to some offsets, one after the other, and the counter then. -/
def run (counter : LineCounter) : List Nat → List Nat × LineCounter
  | [] => ([], counter)
  | offset :: offsets =>
    let (line, counter) := counter.lineAt offset
    let (lines, counter) := counter.run offsets
    (line :: lines, counter)

lemma Stands.run {counter : LineCounter} {source} (h : counter.Stands source)
    (offsets : List Nat) :
    (counter.run offsets).1 = offsets.map (lineOf source) ∧
      (counter.run offsets).2.Stands source := by
  induction offsets generalizing counter with
  | nil => exact ⟨rfl, h⟩
  | cons offset offsets ih =>
    obtain ⟨hanswer, hstands⟩ := h.lineAt offset
    obtain ⟨hanswers, hstands⟩ := ih hstands
    exact ⟨congrArg₂ cons hanswer hanswers, hstands⟩

lemma Stands.lineFeeds_lt {counter : LineCounter} {source} (h : counter.Stands source)
    (target : Nat) :
    lineFeeds ((source.drop target).take (counter.offset - target)) < counter.line := by
  rw [h.line_eq, lineOf, Nat.lt_one_add_iff, ← drop_take]
  exact (drop_sublist _ _).count_le _

/-- Whatever offsets were asked before and in whatever order, an answer is one more than there are
line feeds before its offset or, past the end, before the end. What a move back takes off is always
less than the line, and no line is beyond the last one. -/
theorem answers_regardless_of_history (source : List UInt8) (offsets : List Nat) :
    let counter := ((ofBytes source).run offsets).2
    ((ofBytes source).run offsets).1 = offsets.map (fun offset =>
      1 + lineFeeds (source.take (min offset source.length))) ∧
    ∀ offset,
      lineFeeds ((counter.source.drop (min offset source.length)).take
        (counter.offset - min offset source.length)) < counter.line ∧
      (counter.lineAt offset).1 ≤ 1 + lineFeeds source := by
  intro counter
  obtain ⟨hanswers, hstands⟩ := (Stands.ofBytes source).run offsets
  refine ⟨hanswers.trans (map_congr_left fun offset _ => ?_), fun offset => ⟨?_, ?_⟩⟩
  · rw [lineOf, take_eq_take_min]
  · rw [show counter.source = source from hstands.source_eq]
    exact hstands.lineFeeds_lt _
  · rw [(hstands.lineAt offset).1, lineOf]
    exact Nat.add_le_add_left ((take_sublist _ _).count_le _) _

example : ((ofBytes [97, 10, 98, 10, 10, 99]).run [0, 2, 5, 3, 100]).1 = [1, 2, 4, 2, 4] := by
  decide

end LineCounter

end Text

mutual

def Element.inOrder : Element → List Element
  | ⟨tag, attributes, children, text, line⟩ =>
    ⟨tag, attributes, children, text, line⟩ :: Element.allInOrder children

def Element.allInOrder : List Element → List Element
  | [] => []
  | e :: es => e.inOrder ++ Element.allInOrder es

end

mutual

def Element.relined (f : Nat → Nat) : Element → Element
  | ⟨tag, attributes, children, text, line⟩ =>
    ⟨tag, attributes, Element.relinedAll f children, text, f line⟩

def Element.relinedAll (f : Nat → Nat) : List Element → List Element
  | [] => []
  | e :: es => e.relined f :: Element.relinedAll f es

end

namespace Element

variable (f g : Nat → Nat)

lemma relinedAll_append (es es' : List Element) :
    relinedAll f (es ++ es') = relinedAll f es ++ relinedAll f es' := by
  induction es with
  | nil => rfl
  | cons e es ih => rw [cons_append, relinedAll, ih, relinedAll, cons_append]

lemma relined_withChild (e c : Element) :
    (e.withChild c).relined f = (e.relined f).withChild (c.relined f) := by
  cases e with
  | mk tag attributes children text line =>
    simp [withChild, relined, relinedAll_append, relinedAll]

mutual

lemma relined_relined (e : Element) : (e.relined f).relined g = e.relined (g ∘ f) := by
  cases e with
  | mk tag attributes children text line =>
    simp only [relined, relinedAll_relinedAll children, Function.comp_apply]

lemma relinedAll_relinedAll (es : List Element) :
    relinedAll g (relinedAll f es) = relinedAll (g ∘ f) es := by
  cases es with
  | nil => rfl
  | cons e es => rw [relinedAll, relinedAll, relinedAll, relined_relined e, relinedAll_relinedAll es]

end

mutual

lemma relined_eq_iff (e : Element) :
    e.relined f = e.relined g ↔ ∀ e' ∈ e.inOrder, f e'.line = g e'.line := by
  cases e with
  | mk tag attributes children text line =>
    simp only [relined, mk.injEq, true_and, relinedAll_eq_iff children, inOrder,
      forall_mem_cons]
    exact and_comm

lemma relinedAll_eq_iff (es : List Element) :
    relinedAll f es = relinedAll g es ↔ ∀ e' ∈ allInOrder es, f e'.line = g e'.line := by
  cases es with
  | nil => simp [relinedAll, allInOrder]
  | cons e es =>
    rw [relinedAll, relinedAll, List.cons.injEq, relined_eq_iff e, relinedAll_eq_iff es, allInOrder,
      forall_mem_append]

end

end Element

namespace Markup

/-- A place in a text, by its offset in bytes. -/
inductive Place where
  /-- The first opening mark from an offset on. -/
  | mark (offset : Nat)
  | spot (offset : Nat)
  | bottom
deriving DecidableEq

open Place

def Place.line (source : List UInt8) : Place → Nat
  | mark offset => Text.lineOf source (markFrom source offset)
  | spot offset => Text.lineOf source offset
  | bottom => Text.lineOf source source.length

lemma Reader.next_shorter {r r' : Reader} {event} (h : r.next = .ok (event, r'))
    (hevent : event ≠ .finish) : r'.rest.length < r.rest.length := by
  obtain ⟨s, ⟨hfinish, -⟩ | ⟨cs, hrest, -, hlexeme⟩⟩ := Reader.exists_lexeme h
  · exact absurd hfinish hevent
  · have hcs := length_pos_of_ne_nil hlexeme.ne_nil
    rw [hrest, length_append, length_append]
    omega

/-- Reads to the end. A fault comes with its place, and an element has, for its line, the offset
from which on its opening mark is the first. -/
def readPlaces (reader : Reader) (builder : Builder) : Except (MarkupFault × Place) Document :=
  match _ : reader.next with
  | .error found => .error (found.fault, .spot found.offset)
  | .ok (event, reader') =>
    if _ : event = .finish then builder.finish.mapError fun fault => (fault, .bottom)
    else
      match builder.step reader.offset event with
      | .error fault => .error (fault, .mark reader.offset)
      | .ok builder => readPlaces reader' builder
termination_by reader.rest.length
decreasing_by apply Reader.next_shorter <;> assumption

def inLines (look : Place → Nat) :
    Except (MarkupFault × Place) Document → Except (MarkupFault × Nat) Document
  | .error (fault, place) => .error (fault, look place)
  | .ok d => .ok ⟨d.root.relined fun offset => look (.mark offset)⟩

def placesOf : Except (MarkupFault × Place) Document → List Place
  | .error (_, place) => [place]
  | .ok d => d.root.inOrder.map fun e => .mark e.line

lemma inLines_eq_iff (look look' : Place → Nat) (outcome : Except (MarkupFault × Place) Document) :
    inLines look outcome = inLines look' outcome ↔
      ∀ place ∈ placesOf outcome, look place = look' place := by
  cases outcome with
  | error found => simp [inLines, placesOf]
  | ok d => simp [inLines, placesOf, Element.relined_eq_iff]

namespace Builder

def relined (f : Nat → Nat) (b : Builder) : Builder :=
  { stack := b.stack.map (Element.relined f), root := b.root.map (Element.relined f) }

variable (f : Nat → Nat) (b : Builder)

lemma attach_relined (e : Element) :
    (b.relined f).attach (e.relined f) = (b.attach e).map (relined f) := by
  obtain ⟨stack, root⟩ := b
  cases stack with
  | cons parent outer =>
    simp [attach, relined, Element.relined_withChild, Except.map]
  | nil => cases root <;> rfl

lemma addText?_relined (text : List Char) :
    (b.relined f).addText? text = (b.addText? text).map (relined f) := by
  obtain ⟨stack, root⟩ := b
  cases stack with
  | cons e outer => cases e; rfl
  | nil => rfl

end Builder

lemma readTag_relined (f : Nat → Nat) (line : Nat) (content : List Char) :
    readTag (f line) content = (readTag line content).map (Element.relined f) := by
  rw [readTag, readTag]
  cases readAttributes (byteCount content) (content.length + 1) []
    ⟨byteCount (tagName content), content.drop (tagName content).length⟩ <;> rfl

namespace Builder

variable (f : Nat → Nat) (b : Builder)

lemma step_relined (line : Nat) (event : Event) :
    (b.relined f).step (f line) event = (b.step line event).map (relined f) := by
  cases event with
  | start content =>
    rw [step, step, readTag_relined]
    cases readTag line content <;> rfl
  | empty content =>
    rw [step, step, readTag_relined]
    cases readTag line content with
    | error fault => rfl
    | ok e => exact attach_relined f b e
  | close =>
    obtain ⟨stack, root⟩ := b
    cases stack with
    | cons e outer => exact attach_relined f ⟨outer, root⟩ e
    | nil => rfl
  | text raw =>
    rw [step, step]
    cases unescape raw with
    | error fault => rfl
    | ok text =>
      simp only [Except.mapError, bind, Except.bind, addText?_relined]
      cases b.addText? text <;> rfl
  | data content =>
    rw [step, step, addText?_relined]
    cases b.addText? content <;> rfl
  | skipped => rfl
  | finish => rfl

lemma finish_relined :
    (b.relined f).finish = b.finish.map fun d => ⟨d.root.relined f⟩ := by
  obtain ⟨stack, root⟩ := b
  cases stack with
  | cons e outer => cases e; rfl
  | nil => cases root <;> rfl

end Builder

lemma readEvents_eq {source : List UInt8} {fuel lines reader} (hlines : lines.Stands source)
    (hfuel : reader.rest.length < fuel) (builder : Builder) :
    readEvents source fuel lines reader
        (builder.relined fun offset => line source (.mark offset)) =
      inLines (line source) (readPlaces reader builder) := by
  induction fuel generalizing lines reader builder with
  | zero => exact absurd hfuel (Nat.not_lt_zero _)
  | succ fuel ih =>
    rw [readEvents, readPlaces]
    obtain ⟨hline, hnextLines⟩ := hlines.lineAt (markFrom source reader.offset)
    cases hnext : reader.next with
    | error found => simp [inLines, line, (hlines.lineAt found.offset).1]
    | ok result =>
      obtain ⟨event, reader'⟩ := result
      simp only
      split
      · next hevent =>
        rw [Builder.finish_relined, (hnextLines.lineAt source.length).1]
        cases builder.finish <;> rfl
      · next hevent =>
        have hshorter := Reader.next_shorter hnext hevent
        have hstep := builder.step_relined (fun offset => line source (.mark offset))
          reader.offset event
        rw [hline]
        simp only [line] at hstep ⊢
        rw [hstep]
        cases builder.step reader.offset event with
        | error fault => rfl
        | ok builder' => exact ih hnextLines (by omega) builder'

lemma readDocument_eq (s : String) :
    readDocument s =
      inLines (line s.toUTF8.toList) (readPlaces (.ofText s.toList) .start) := by
  have hlength : (Reader.ofText s.toList).rest.length ≤ s.toList.length := by
    cases s.toList with
    | nil => exact Nat.le_refl _
    | cons c cs =>
      dsimp only [Reader.ofText]
      split
      · exact Nat.le_succ _
      · exact Nat.le_refl _
  exact readEvents_eq (.ofBytes _) (by omega) .start

def byteOrderMark : List UInt8 :=
  [0xEF, 0xBB, 0xBF]

/-- The line of a place that is looked up three bytes too early, as after a mark that is not
counted. The mark itself has no line feed and no opening mark. -/
def Place.early (source : List UInt8) : Place → Nat
  | mark 0 => Place.line source (.mark 0)
  | mark (offset + 3) => Place.line source (.mark offset)
  | mark _ => 1
  | spot offset => Text.lineOf source (offset - 3)
  | bottom => Place.line source .bottom

lemma markFrom_marked (source : List UInt8) (offset : Nat) :
    markFrom (byteOrderMark ++ source) (byteOrderMark.length + offset) =
      byteOrderMark.length + markFrom source offset := by
  simp only [markFrom, length_append, Nat.add_lt_add_iff_left, drop_length_add_append]
  split
  · rfl
  · split
    · rfl
    · omega

lemma line_marked_top {source} (h : source.head?.any (fun b => 0x80 ≤ b && b < 0xC0) = false) :
    line (byteOrderMark ++ source) (.mark 0) = line source (.mark 0) := by
  have hmarked : markFrom (byteOrderMark ++ source) 0 =
      ((source.idxOf? 0x3C).map (· + byteOrderMark.length)).getD 0 := by
    have hfirst : ((byteOrderMark ++ source).drop 0).head?.any
        (fun b => 0x80 ≤ b && b < 0xC0) = false := rfl
    rw [markFrom, if_neg (Nat.not_lt_zero _)]
    dsimp only
    rw [hfirst, if_neg Bool.false_ne_true, Nat.zero_add, drop_zero, idxOf?,
      findIdx?_append]
    rfl
  have hplain : markFrom source 0 = (source.idxOf? 0x3C).getD 0 := by
    rw [markFrom, if_neg (Nat.not_lt_zero _)]
    dsimp only
    rw [drop_zero, h, if_neg Bool.false_ne_true, Nat.zero_add]
  rw [line, line, hmarked, hplain]
  cases source.idxOf? 0x3C with
  | none => rfl
  | some i =>
    dsimp only [Option.map_some, Option.getD_some]
    rw [Nat.add_comm, Text.lineOf_append_left rfl]

lemma line_marked {source} (h : source.head?.any (fun b => 0x80 ≤ b && b < 0xC0) = false)
    (place : Place) : line (byteOrderMark ++ source) place = place.early source := by
  have hsize : byteOrderMark.length = 3 := rfl
  have hspot : ∀ offset, Text.lineOf (byteOrderMark ++ source) offset =
      Text.lineOf source (offset - 3) := by
    intro offset
    match offset with
    | 0 | 1 | 2 => rfl
    | offset + 3 =>
      rw [Nat.add_comm, ← hsize, Text.lineOf_append_left rfl, Nat.add_sub_cancel_left]
  cases place with
  | mark offset =>
    match offset with
    | 0 => exact line_marked_top h
    | 1 | 2 =>
      rw [line, markFrom]
      simp [byteOrderMark, early, Text.lineOf, Text.lineFeeds]
    | offset + 3 =>
      rw [early, line, Nat.add_comm, ← hsize, markFrom_marked,
        Text.lineOf_append_left rfl, line]
  | spot offset => exact hspot offset
  | bottom =>
    rw [line, hspot, length_append, hsize, Nat.add_sub_cancel_left]
    rfl

lemma toUTF8_marked (s : String) :
    ("\uFEFF" ++ s).toUTF8.toList = byteOrderMark ++ s.toUTF8.toList := by
  rw [Text.toList_toUTF8, String.toList_append, flatMap_append, Text.toList_toUTF8]
  rfl

lemma Reader.ofText_unmarked {cs} (h : cs.head? ≠ some '\uFEFF') :
    Reader.ofText cs = ⟨cs, 0, []⟩ := by
  cases cs with
  | nil => rfl
  | cons c cs =>
    have hc : c.toNat ≠ 0xFEFF := fun heq => h (congrArg some (Char.toNat_inj.1 heq))
    simp only [ofText, if_neg hc]

/-- A byte order mark changes nothing that is read except lines: those are looked up three bytes too
early. The document or its fault is the same only if no line feed lies in between at any place. -/
theorem readDocument_marked {s : String} (h : s.toList.head? ≠ some '\uFEFF') :
    let bytes := s.toUTF8.toList
    let outcome := readPlaces (.ofText s.toList) .start
    readDocument s = inLines (Place.line bytes) outcome ∧
      readDocument ("\uFEFF" ++ s) = inLines (Place.early bytes) outcome ∧
      (readDocument ("\uFEFF" ++ s) = readDocument s ↔
        ∀ place ∈ placesOf outcome, place.early bytes = place.line bytes) := by
  intro bytes outcome
  have hplain : readDocument s = inLines (Place.line bytes) outcome := readDocument_eq s
  have hmarked : readDocument ("\uFEFF" ++ s) = inLines (Place.early bytes) outcome := by
    have hhead := Text.head_utf8 s.toList
    rw [← Text.toList_toUTF8] at hhead
    have hlook : Place.line (byteOrderMark ++ s.toUTF8.toList) = Place.early bytes :=
      funext (line_marked hhead)
    have hreader : Reader.ofText ("\uFEFF" ++ s).toList = Reader.ofText s.toList := by
      rw [String.toList_append, Reader.ofText_unmarked h]
      rfl
    rw [readDocument_eq, toUTF8_marked, hlook, hreader]
  refine ⟨hplain, hmarked, ?_⟩
  rw [hplain, hmarked]
  exact inLines_eq_iff _ _ _

theorem readDocument_marked_child :
    "<a>\n<b/></a>".toList.head? ≠ some '\uFEFF' ∧
      readDocument ("\uFEFF" ++ "<a>\n<b/></a>") =
        inLines (Place.early "<a>\n<b/></a>".toUTF8.toList)
          (readPlaces (.ofText "<a>\n<b/></a>".toList) .start) := by
  have hplain : "<a>\n<b/></a>".toList.head? ≠ some '\uFEFF' := by decide
  exact ⟨hplain, (readDocument_marked hplain).2.1⟩

/-- The child stands on the second line, and with a byte order mark before it on the first. -/
theorem marked_child_on_first_line :
    ((readDocument "<a>\n<b/></a>").map fun d => d.root.inOrder.map (·.line)) = .ok [1, 2] ∧
      ((readDocument "\uFEFF<a>\n<b/></a>").map fun d => d.root.inOrder.map (·.line)) =
        .ok [1, 1] := by
  decide +kernel

end Markup

end SceneView
