import Mathlib.Logic.Relation
import SceneView.Proofs.Literal
import SceneView.Proofs.Paths
import SceneView.Proofs.Pattern

/-!
# Tuples

A tuple is read as a whole by its pattern, and taken apart at its commas on its own. The two agree:
what stands between the commas, without white space, are the numbers that the pattern finds, and as
many as the type has. So white space around the commas and at the ends makes no difference.
-/

open List

namespace SceneView

open scoped Computability

namespace Text

variable {separator : Char} {p : Char → Bool} {w cs : List Char}

lemma splitAt_eq_splitOn (separator : Char) (cs : List Char) :
    splitAt separator cs = cs.splitOn separator := by
  rw [splitOn_eq_splitOnP]
  induction cs with
  | nil => rfl
  | cons c cs ih =>
    obtain ⟨first, rest, hcs⟩ := exists_cons_of_ne_nil (splitAt_ne_nil separator cs)
    rw [splitAt, splitOnP_cons_eq_if_modifyHead, ← ih, hcs]
    simp only [beq_iff_eq]
    rfl

lemma splitAt_prepend (hw : separator ∉ w) (cs : List Char) :
    ∃ first rest, splitAt separator cs = first :: rest ∧
      splitAt separator (w ++ cs) = (w ++ first) :: rest := by
  obtain ⟨first, rest, hcs⟩ := exists_cons_of_ne_nil (splitAt_ne_nil separator cs)
  refine ⟨first, rest, hcs, ?_⟩
  induction w with
  | nil => exact hcs
  | cons c w ih =>
    simp only [mem_cons, not_or] at hw
    rw [cons_append, splitAt, if_neg (Ne.symm hw.1), ih hw.2]
    rfl

lemma splitAt_postpone (hw : separator ∉ w) (cs : List Char) :
    ∃ front last, splitAt separator cs = front ++ [last] ∧
      splitAt separator (cs ++ w) = front ++ [last ++ w] := by
  induction cs with
  | nil => exact ⟨[], [], rfl, splitAt_of_not_mem hw⟩
  | cons c cs ih =>
    obtain ⟨front, last, hcs, hcw⟩ := ih
    rw [cons_append, splitAt, splitAt, hcs, hcw]
    by_cases hc : c = separator
    · rw [if_pos hc, if_pos hc]
      exact ⟨[] :: front, last, rfl, rfl⟩
    · rw [if_neg hc, if_neg hc]
      cases front with
      | nil => exact ⟨[], c :: last, rfl, rfl⟩
      | cons first front => exact ⟨(c :: first) :: front, last, rfl, rfl⟩

lemma trimBy_prepend (hw : ∀ c ∈ w, p c = true) (cs : List Char) :
    trimBy p (w ++ cs) = trimBy p cs := by
  rw [trimBy, dropWhile_append_of_pos hw, trimBy]

lemma trimBy_postpone (hw : ∀ c ∈ w, p c = true) (cs : List Char) :
    trimBy p (cs ++ w) = trimBy p cs := by
  have hreverse : ∀ c ∈ w.reverse, p c = true := fun c hc => hw c (mem_reverse.1 hc)
  rw [trimBy, trimBy, dropWhile_append]
  split
  · next hempty =>
    rw [isEmpty_iff.1 hempty, dropWhile_eq_nil_iff.2 hw]
  · rw [reverse_append, dropWhile_append_of_pos hreverse]

def blankRanges : List (Nat × Nat) :=
  [(9, 13), (32, 32), (0x85, 0x85), (0xA0, 0xA0), (0x1680, 0x1680), (0x2000, 0x200A),
   (0x2028, 0x2029), (0x202F, 0x202F), (0x205F, 0x205F), (0x3000, 0x3000)]

lemma exists_blankRange {c} (h : isBlank c = true) :
    ∃ r ∈ blankRanges, r.1 ≤ c.toNat ∧ c.toNat ≤ r.2 := by
  simp only [isBlank, Bool.or_eq_true, Bool.and_eq_true, decide_eq_true_eq, beq_iff_eq] at h
  simp only [blankRanges, exists_mem_cons_iff, not_mem_nil, false_and, exists_false,
    or_false]
  omega

lemma isBlank_of_isDigit {c} (h : isDigit c = true) : isBlank c = false := by
  rcases Bool.or_eq_true_iff.1 h with hdigit | hdigit
  · exact Script.Phrase.isBlank_of_plain (Script.Phrase.plain_of_isDigit hdigit)
  · obtain ⟨-, hany⟩ := Bool.and_eq_true_iff.1 hdigit
    obtain ⟨r, hr, hin⟩ := any_eq_true.1 hany
    simp only [Bool.and_eq_true, decide_eq_true_eq] at hin
    have hapart : ∀ r ∈ digitRanges, ∀ s ∈ blankRanges, s.2 < r.1 ∨ r.2 < s.1 := by
      decide +kernel
    rw [← Bool.not_eq_true]
    intro hblank
    obtain ⟨s, hs, hin'⟩ := exists_blankRange hblank
    have hrs := hapart r hr s hs
    omega

end Text

namespace Value

open Text Pattern

/-- The texts between the commas, without white space at their ends. -/
def pieces (cs : List Char) : List (List Char) :=
  (splitAt ',' cs).map (trimBy isBlank)

/-- The texts are written one after the other, with a comma and any white space between two. -/
inductive Joins : List (List Char) → List Char → Prop where
  | last (text : List Char) : Joins [text] text
  | more {texts rest before after} (text : List Char) :
    (∀ c ∈ before, isBlank c = true) →
    (∀ c ∈ after, isBlank c = true) →
    Joins texts rest →
    Joins (text :: texts) (text ++ (before ++ ',' :: (after ++ rest)))

section Pieces

variable {w cs front back : List Char} {texts : List (List Char)}

lemma comma_not_mem (hw : ∀ c ∈ w, isBlank c = true) : ',' ∉ w :=
  fun h => absurd (hw _ h) (by decide)

lemma pieces_comma (front back : List Char) :
    pieces (front ++ ',' :: back) = pieces front ++ pieces back := by
  rw [pieces, splitAt_append, map_append]
  rfl

lemma pieces_prepend (hw : ∀ c ∈ w, isBlank c = true) (cs : List Char) :
    pieces (w ++ cs) = pieces cs := by
  obtain ⟨first, rest, hcs, hwcs⟩ := splitAt_prepend (comma_not_mem hw) cs
  rw [pieces, pieces, hcs, hwcs, map_cons, map_cons, trimBy_prepend hw]

lemma pieces_postpone (hw : ∀ c ∈ w, isBlank c = true) (cs : List Char) :
    pieces (cs ++ w) = pieces cs := by
  obtain ⟨front, last, hcs, hcsw⟩ := splitAt_postpone (comma_not_mem hw) cs
  rw [pieces, pieces, hcs, hcsw, map_append, map_append, map_singleton,
    map_singleton, trimBy_postpone hw]

lemma pieces_trimBy (cs : List Char) : pieces (trimBy isBlank cs) = pieces cs := by
  obtain ⟨before, after, hcs, hbefore, hafter⟩ := exists_trimBy isBlank cs
  conv_rhs => rw [hcs, pieces_prepend hbefore, pieces_postpone hafter]

/-- Whether neither white space nor a comma is among the characters. -/
def IsSolid (cs : List Char) : Prop :=
  ∀ c ∈ cs, isBlank c = false ∧ c ≠ ','

lemma IsSolid.firm (h : IsSolid cs) (hne : cs ≠ []) : BeginsFirm cs ∧ EndsFirm cs := by
  constructor
  · obtain ⟨c, rest, rfl⟩ := exists_cons_of_ne_nil hne
    exact ⟨c, rest, rfl, (h c mem_cons_self).1⟩
  · exact ⟨_, _, (dropLast_append_getLast hne).symm, (h _ (getLast_mem hne)).1⟩

lemma IsSolid.pieces_eq (h : IsSolid cs) (hne : cs ≠ []) : pieces cs = [cs] := by
  obtain ⟨hbegins, hends⟩ := h.firm hne
  rw [pieces, splitAt_of_not_mem fun hcomma => (h _ hcomma).2 rfl, map_singleton,
    trimBy_eq_self hbegins hends]

lemma Joins.pieces_eq (h : Joins texts cs) (htexts : ∀ text ∈ texts, text ≠ [] ∧ IsSolid text) :
    pieces cs = texts := by
  induction h with
  | last text =>
    obtain ⟨hne, hsolid⟩ := htexts text mem_cons_self
    exact hsolid.pieces_eq hne
  | more text hbefore hafter _ ih =>
    obtain ⟨⟨hne, hsolid⟩, hrest⟩ := forall_mem_cons.1 htexts
    rw [← append_assoc, pieces_comma, pieces_postpone hbefore, pieces_prepend hafter, ih hrest,
      hsolid.pieces_eq hne]
    rfl

lemma Joins.firm (h : Joins texts cs) (htexts : ∀ text ∈ texts, text ≠ [] ∧ IsSolid text) :
    BeginsFirm cs ∧ EndsFirm cs := by
  induction h with
  | last text =>
    obtain ⟨hne, hsolid⟩ := htexts text mem_cons_self
    exact hsolid.firm hne
  | more text _ _ _ ih =>
    obtain ⟨⟨hne, hsolid⟩, hrest⟩ := forall_mem_cons.1 htexts
    exact ⟨(hsolid.firm hne).1.append _, ((((ih hrest).2.append _).cons _).append _).append _⟩

lemma exists_joins (cs : List Char) :
    ∃ before inner after, cs = before ++ (inner ++ after) ∧ Joins (pieces cs) inner ∧
      (∀ c ∈ before, isBlank c = true) ∧ ∀ c ∈ after, isBlank c = true := by
  have hjoins : ∀ qs : List (List Char), qs ≠ [] → ∃ before inner after,
      [','].intercalate qs = before ++ (inner ++ after) ∧
      Joins (qs.map (trimBy isBlank)) inner ∧
      (∀ c ∈ before, isBlank c = true) ∧ ∀ c ∈ after, isBlank c = true := by
    intro qs hne
    induction qs with
    | nil => exact absurd rfl hne
    | cons q qs ih =>
      obtain ⟨before, after, hq, hbefore, hafter⟩ := exists_trimBy isBlank q
      cases qs with
      | nil => exact ⟨before, _, after, by simpa using hq, .last _, hbefore, hafter⟩
      | cons q' qs =>
        obtain ⟨before', inner, after', heq, hinner, hbefore', hafter'⟩ := ih nofun
        refine ⟨before, _, after', ?_, .more _ hafter hbefore' hinner, hbefore, hafter'⟩
        rw [intercalate_cons_cons, heq]
        nth_rewrite 1 [hq]
        simp
  obtain ⟨before, inner, after, heq, hrest⟩ := hjoins _ (splitAt_ne_nil ',' cs)
  refine ⟨before, inner, after, ?_, hrest⟩
  rw [← heq, splitAt_eq_splitOn, intercalate_splitOn]

lemma joins_intercalate (hne : texts ≠ []) : Joins texts ([',', ' '].intercalate texts) := by
  induction texts with
  | nil => exact absurd rfl hne
  | cons text texts ih =>
    cases texts with
    | nil => simpa using Joins.last text
    | cons next texts =>
      have hspace : ∀ c ∈ [' '], isBlank c = true := by simp [isBlank]
      rw [intercalate_cons_cons, append_assoc]
      exact Joins.more text (forall_mem_nil _) hspace (ih nofun)

end Pieces

namespace Pattern

def comma : Language Char :=
  (one isBlank)∗ * (mark ',' * (one isBlank)∗)

lemma mem_tuple {part n cs} :
    cs ∈ part * (comma * part) ^ n ↔
      ∃ texts, texts.length = n + 1 ∧ (∀ text ∈ texts, text ∈ part) ∧ Joins texts cs := by
  induction n generalizing cs with
  | zero =>
    rw [pow_zero, mul_one]
    constructor
    · intro h
      exact ⟨[cs], rfl, by simpa using h, .last cs⟩
    · rintro ⟨texts, hlength, hpart, hjoins⟩
      cases hjoins with
      | last => exact hpart cs mem_cons_self
      | more _ _ _ hrest => cases hrest <;> cases hlength
  | succ n ih =>
    rw [pow_succ', mul_assoc, Language.mem_mul]
    constructor
    · rintro ⟨text, htext, _, ⟨_, ⟨before, hbefore, _, hafter, rfl⟩, rest, hrest, rfl⟩, rfl⟩
      obtain ⟨after, hblank, rfl⟩ := mem_mark_mul.1 hafter
      obtain ⟨texts, hlength, hpart, hjoins⟩ := ih.1 hrest
      refine ⟨text :: texts, by simp [hlength], forall_mem_cons.2 ⟨htext, hpart⟩, ?_⟩
      simpa using hjoins.more text (mem_star_one.1 hbefore) (mem_star_one.1 hblank)
    · rintro ⟨texts, hlength, hpart, hjoins⟩
      cases hjoins with
      | last => cases hlength
      | @more texts rest before after text hbefore hafter hrest =>
        obtain ⟨htext, hpart⟩ := forall_mem_cons.1 hpart
        have hcomma : before ++ ',' :: after ∈ comma :=
          ⟨before, mem_star_one.2 hbefore, ',' :: after,
            mem_mark_mul.2 ⟨after, mem_star_one.2 hafter, rfl⟩, rfl⟩
        have hmore : rest ∈ part * (comma * part) ^ n :=
          ih.2 ⟨texts, by simpa using hlength, hpart, hrest⟩
        refine ⟨text, htext, _, ⟨_, hcomma, rest, hmore, rfl⟩, by simp⟩

end Pattern

namespace Primitive

def part : Primitive → Language Char
  | color3 | color4 => component
  | vector3 => coordinate

def tuple (p : Primitive) : Language Char :=
  p.part * (comma * p.part) ^ (p.arity - 1)

variable {p : Primitive} {cs : List Char} {texts : List (List Char)}

lemma isPart_iff : p.isPart cs = true ↔ cs ∈ p.part := by
  cases p with
  | color3 | color4 => exact isComponent_iff
  | vector3 => exact isCoordinate_iff

lemma mem_part (h : cs ∈ p.part) : cs ∈ magnitude ∨ ∃ rest ∈ magnitude, cs = '-' :: rest := by
  cases p with
  | color3 | color4 => exact .inl (mem_magnitude_of_component h)
  | vector3 => exact mem_coordinate.1 h

lemma solid_of_mem_part (h : cs ∈ p.part) : cs ≠ [] ∧ IsSolid cs := by
  have hsolid : ∀ {c : Char}, isDigit c = true ∨ c = '.' → isBlank c = false ∧ c ≠ ',' := by
    rintro c (hdigit | rfl)
    · refine ⟨isBlank_of_isDigit hdigit, ?_⟩
      rintro rfl
      cases hdigit
    · decide
  rcases mem_part h with hcs | ⟨rest, hrest, rfl⟩
  · obtain ⟨c, rest, rfl, -⟩ := head_of_mem_magnitude hcs
    exact ⟨nofun, fun c hc => hsolid (chars_of_mem_magnitude hcs c hc)⟩
  · refine ⟨nofun, forall_mem_cons.2 ⟨by decide, fun c hc => ?_⟩⟩
    exact hsolid (chars_of_mem_magnitude hrest c hc)

lemma mem_tuple_iff : cs ∈ p.tuple ↔
    ∃ texts, texts.length = p.arity ∧ (∀ text ∈ texts, text ∈ p.part) ∧ Joins texts cs := by
  have harity : p.arity - 1 + 1 = p.arity := by cases p <;> rfl
  rw [tuple, mem_tuple, harity]

lemma isTuple_iff {text} (htrim : trim text = text) :
    p.isTuple text = true ↔ text.toList ∈ p.tuple := by
  have hparts : parts text = pieces text.toList := rfl
  rw [isTuple, hparts, mem_tuple_iff, Bool.and_eq_true, beq_iff_eq, all_eq_true]
  simp only [isPart_iff]
  constructor
  · rintro ⟨hlength, hpart⟩
    obtain ⟨before, inner, after, htext, hjoins, hbefore, hafter⟩ := exists_joins text.toList
    obtain ⟨hbegins, hends⟩ := hjoins.firm fun a ha => solid_of_mem_part (hpart a ha)
    have hinner : text.toList = inner := by
      rw [← htrim, trim, String.toList_ofList, htext, trimBy_prepend hbefore,
        trimBy_postpone hafter, trimBy_eq_self hbegins hends]
    exact ⟨_, hlength, hpart, hinner ▸ hjoins⟩
  · rintro ⟨texts, hlength, hpart, hjoins⟩
    rw [hjoins.pieces_eq fun a ha => solid_of_mem_part (hpart a ha)]
    exact ⟨hlength, hpart⟩

lemma head_of_mem_tuple (h : cs ∈ p.tuple) :
    ∃ c rest, cs = c :: rest ∧ (isDigit c = true ∨ c = '.' ∨ c = '-') := by
  obtain ⟨text, htext, rest, -, rfl⟩ := h
  rcases mem_part htext with hmagnitude | ⟨digits, -, rfl⟩
  · obtain ⟨c, digits, rfl, hc⟩ := head_of_mem_magnitude hmagnitude
    exact ⟨c, digits ++ rest, rfl, by tauto⟩
  · exact ⟨'-', digits ++ rest, rfl, by tauto⟩

lemma head_ne_of_mem_tuple (h : cs ∈ p.tuple) : cs.head? ≠ some '#' ∧ cs.head? ≠ some '{' := by
  obtain ⟨c, rest, rfl, hdigit | rfl | rfl⟩ := head_of_mem_tuple h
  · constructor <;> rintro ⟨⟩ <;> cases hdigit
  · exact ⟨nofun, nofun⟩
  · exact ⟨nofun, nofun⟩

/-- The expression that constructs a value from the given arguments. -/
def call (p : Primitive) (args : List (List Char)) : String :=
  "new " ++ p.typeName ++ "(" ++ ", ".intercalate (args.map String.ofList) ++ ")"

def takes (p : Primitive) (args : List (List Char)) : Bool :=
  args.length == p.arity && args.all p.isPart

lemma pieces_of_mem_tuple {raw} (h : (trim raw).toList ∈ p.tuple) :
    (pieces raw.toList).length = p.arity ∧ (∀ a ∈ pieces raw.toList, a ∈ p.part) ∧
      Joins (pieces raw.toList) (trim raw).toList := by
  obtain ⟨args, hlength, hpart, hjoins⟩ := mem_tuple_iff.1 h
  have hpieces : pieces raw.toList = args := by
    rw [← pieces_trimBy, ← String.toList_ofList (l := trimBy _ _)]
    exact hjoins.pieces_eq fun a ha => solid_of_mem_part (hpart a ha)
  rw [hpieces]
  exact ⟨hlength, hpart, hjoins⟩

lemma construct_trim {raw} (h : (trim raw).toList.head? ≠ some '#') (p : Primitive) :
    p.construct (trim raw) = p.call (pieces raw.toList) := by
  rw [construct, if_neg h, parts, trim, String.toList_ofList, ← pieces, pieces_trimBy, call]

lemma isTuple_trim (p : Primitive) (raw : String) :
    p.isTuple (trim raw) = p.takes (pieces raw.toList) := by
  rw [isTuple, takes, parts, trim, String.toList_ofList, ← pieces, pieces_trimBy]

lemma accepts_eq_isTuple {text} (h : text.toList.head? ≠ some '#') (q : Primitive) :
    q.accepts text = q.isTuple text := by
  rw [accepts, isHex]
  split
  · next hash =>
    rw [hash] at h
    exact absurd rfl h
  · exact Bool.or_false _

/-- A value is read as a tuple of the arguments: of the given type where that is declared, and else
of the first type that takes them. -/
structure Constructs (p q : Primitive) (args : List (List Char)) (raw : String) : Prop where
  tuple : (trim raw).toList ∈ p.tuple
  first : ofLiteral? (trim raw) = some q ∧ (trim raw).toList ∈ q.tuple
  construct : p.construct (trim raw) = p.call args
  typed (b : Binder) (type : String) :
    trim type = p.typeName → b.typed type raw = .ok (p.call args, some p)
  translate (b : Binder) (name target : String) (options : Options) :
    options.skipPrimitives = false → b.translate name raw target options =
      .ok ⟨name, q.call args, options.setter name target, none, some q⟩

lemma ofTypeName?_typeName (p : Primitive) : ofTypeName? p.typeName = some p := by
  cases p <;> decide

lemma constructs_of_pieces {q args raw} (hpieces : pieces raw.toList = args)
    (hp : p.takes args = true) (hq : all.find? (·.takes args) = some q) :
    p.Constructs q args raw := by
  have htuple : ∀ {r : Primitive}, r.takes args = true → (trim raw).toList ∈ r.tuple := by
    intro r hr
    rw [← isTuple_iff (trim_trim raw), isTuple_trim, hpieces, hr]
  obtain ⟨hhash, hbrace⟩ := head_ne_of_mem_tuple (htuple hp)
  have haccepts : ∀ r : Primitive, r.accepts (trim raw) = r.takes args := by
    intro r
    rw [accepts_eq_isTuple hhash, isTuple_trim, hpieces]
  have hconstruct : ∀ r : Primitive, r.construct (trim raw) = r.call args := by
    intro r
    rw [construct_trim hhash, hpieces]
  have hfirst : ofLiteral? (trim raw) = some q := by
    simp only [ofLiteral?, haccepts, hq]
  have htakes : q.takes args = true := List.find?_some (p := fun r : Primitive => r.takes args) hq
  have hliteral := inner?_of_head hbrace
  refine ⟨htuple hp, ⟨hfirst, htuple htakes⟩, hconstruct p, fun b type htype => ?_,
    fun b name target options hskip => ?_⟩
  · rw [b.typed_of_literal hliteral, htype, ofTypeName?_typeName, Option.filter_some, haccepts, hp,
      if_pos rfl]
    simp only [hconstruct]
  · rw [b.translate_of_literal hliteral, Options.primitive?, hskip, if_neg (by decide), hfirst]
    simp only [hconstruct]

end Primitive

/-- The second text has one character of white space more than the first, at an end or beside a
comma. -/
inductive Spaces : List Char → List Char → Prop where
  | first {c} (cs : List Char) : isBlank c = true → Spaces cs (c :: cs)
  | last {c} (cs : List Char) : isBlank c = true → Spaces cs (cs ++ [c])
  | before {c} (front back : List Char) :
    isBlank c = true → Spaces (front ++ ',' :: back) (front ++ c :: ',' :: back)
  | after {c} (front back : List Char) :
    isBlank c = true → Spaces (front ++ ',' :: back) (front ++ ',' :: c :: back)

/-- The texts differ in nothing but white space at their ends and around their commas. -/
def Respaced : List Char → List Char → Prop :=
  Relation.EqvGen Spaces

lemma Spaces.pieces_eq {cs cs'} (h : Spaces cs cs') : pieces cs' = pieces cs := by
  cases h with
  | first cs hc => exact pieces_prepend (forall_mem_singleton.2 hc) cs
  | last cs hc => exact pieces_postpone (forall_mem_singleton.2 hc) cs
  | before front back hc =>
    rw [append_cons, pieces_comma, pieces_comma,
      pieces_postpone (forall_mem_singleton.2 hc)]
  | after front back hc =>
    rw [pieces_comma, pieces_comma, ← singleton_append,
      pieces_prepend (forall_mem_singleton.2 hc)]

lemma Respaced.pieces_eq {cs cs'} (h : Respaced cs cs') : pieces cs' = pieces cs := by
  induction h with
  | rel _ _ hspaces => exact hspaces.pieces_eq
  | refl => rfl
  | symm _ _ _ ih => exact ih.symm
  | trans _ _ _ _ _ ih ih' => exact ih'.trans ih

/-- A tuple constructs a value from the numbers that its pattern finds, which are as many as the
type has and hold neither white space nor a comma. White space around the commas and at the ends
makes no difference, and the arguments of the call are a tuple that gives the same call again. -/
theorem tuple_constructs (p : Primitive) (raw : String) (h : (trim raw).toList ∈ p.tuple) :
    ∃ args q, args.length = p.arity ∧ (∀ a ∈ args, a ∈ p.part ∧ IsSolid a) ∧
      (∀ args', (∀ a ∈ args', a ∈ p.part) → (Joins args' (trim raw).toList ↔ args' = args)) ∧
      ∀ raw', Respaced raw.toList raw'.toList ∨ raw' = ", ".intercalate (args.map String.ofList) →
        p.Constructs q args raw' := by
  obtain ⟨hlength, hpart, hjoins⟩ := Primitive.pieces_of_mem_tuple h
  generalize hpieces : pieces raw.toList = args at hlength hpart hjoins
  have hsolid : ∀ a ∈ args, a ≠ [] ∧ IsSolid a := fun a ha => p.solid_of_mem_part (hpart a ha)
  have htakes : p.takes args = true := by
    rw [Primitive.takes, hlength, beq_self_eq_true, Bool.true_and, List.all_eq_true]
    exact fun a ha => Primitive.isPart_iff.2 (hpart a ha)
  obtain ⟨q, hq⟩ : ∃ q, Primitive.all.find? (·.takes args) = some q := by
    rw [← Option.isSome_iff_exists, List.find?_isSome]
    exact ⟨p, by cases p <;> decide, htakes⟩
  refine ⟨args, q, hlength, fun a ha => ⟨hpart a ha, (hsolid a ha).2⟩, fun args' hpart' => ?_, ?_⟩
  · constructor
    · intro hjoins'
      have hsolid' : ∀ a ∈ args', a ≠ [] ∧ IsSolid a :=
        fun a ha => p.solid_of_mem_part (hpart' a ha)
      rw [← hjoins.pieces_eq hsolid, hjoins'.pieces_eq hsolid']
    · rintro rfl
      exact hjoins
  · rintro raw' (hspaced | rfl)
    · exact Primitive.constructs_of_pieces (hspaced.pieces_eq.trans hpieces) htakes hq
    · have hne : args ≠ [] := by
        rintro rfl
        cases p <;> cases hlength
      refine Primitive.constructs_of_pieces ?_ htakes hq
      rw [String.toList_intercalate, List.map_map]
      simpa using (joins_intercalate hne).pieces_eq hsolid

/-- A vector with a tab behind its first comma and spaces around its second. -/
theorem vector_with_spaces_constructs :
    (trim " 1,\t-2 , .5").toList ∈ Primitive.vector3.tuple ∧
      ∀ raw', Respaced " 1,\t-2 , .5".toList raw'.toList →
        Primitive.vector3.Constructs .vector3 [['1'], ['-', '2'], ['.', '5']] raw' := by
  have htuple : (trim " 1,\t-2 , .5").toList ∈ Primitive.vector3.tuple :=
    (Primitive.isTuple_iff (trim_trim _)).1 (by decide)
  obtain ⟨args, q, -, -, hargs, hconstructs⟩ := tuple_constructs _ _ htuple
  have hfirst : Primitive.ofLiteral? (trim " 1,\t-2 , .5") = some .vector3 := by decide
  have hpart : ∀ a ∈ [['1'], ['-', '2'], ['.', '5']], a ∈ Primitive.vector3.part := by
    simp only [← Primitive.isPart_iff]
    decide
  have hjoins : Joins [['1'], ['-', '2'], ['.', '5']] (trim " 1,\t-2 , .5").toList :=
    @Joins.more _ _ [] ['\t'] _ nofun (List.forall_mem_singleton.2 rfl)
      (@Joins.more _ _ [' '] [' '] _ (List.forall_mem_singleton.2 rfl)
        (List.forall_mem_singleton.2 rfl) (.last _))
  have hq := (hconstructs _ (.inl (.refl _))).first.1
  cases hfirst.symm.trans hq
  cases (hargs _ hpart).1 hjoins
  exact ⟨htuple, fun raw' h => hconstructs raw' (.inl h)⟩

end Value

end SceneView
