import SceneView.Proofs.Action
import SceneView.Proofs.Tuple

/-!
# Values of a declared type

A literal is read in two ways. Where its type is declared, only the grammar of that type is tried;
elsewhere the grammars are tried in order, and the first that the literal matches is taken. The two
agree but for vectors that also write a color of three parts, since no other two grammars overlap.
-/

namespace SceneView

open scoped Computability

namespace Value

open Text Pattern

namespace Primitive

/-- The language of the hexadecimal forms. -/
def hex (p : Primitive) : Language Char :=
  { cs | ∃ digits, cs = '#' :: digits ∧ p.hexDigits? = some digits.length ∧
    ∀ c ∈ digits, isHexDigit c = true }

def grammar (p : Primitive) : Language Char :=
  p.tuple + p.hex

variable {p q : Primitive} {cs : List Char} {text : String}

lemma isHex_iff : p.isHex text = true ↔ text.toList ∈ p.hex := by
  rw [isHex]
  constructor
  · intro h
    split at h
    · next digits heq =>
      rw [Bool.and_eq_true, beq_iff_eq, List.all_eq_true] at h
      exact ⟨digits, heq, h⟩
    · cases h
  · rintro ⟨digits, heq, hlength, hall⟩
    simp [heq, hlength, List.all_eq_true.2 hall]

lemma accepts_iff (htrim : trim text = text) :
    p.accepts text = true ↔ text.toList ∈ p.grammar := by
  rw [accepts, Bool.or_eq_true_iff, isTuple_iff htrim, isHex_iff, grammar, Language.mem_add]

lemma length_pieces_of_mem_tuple (h : cs ∈ p.tuple) : (pieces cs).length = p.arity := by
  obtain ⟨texts, hlength, hpart, hjoins⟩ := mem_tuple_iff.1 h
  rw [hjoins.pieces_eq fun a ha => solid_of_mem_part (hpart a ha), hlength]

lemma not_mem_hex_of_mem_tuple (h : cs ∈ p.tuple) : cs ∉ q.hex := by
  intro hhex
  obtain ⟨digits, rfl, -⟩ := hhex
  exact (head_ne_of_mem_tuple h).1 rfl

lemma not_mem_grammar (harity : p.arity ≠ q.arity)
    (hdigits : ∀ n, p.hexDigits? = some n → q.hexDigits? ≠ some n) (hp : cs ∈ p.grammar) :
    cs ∉ q.grammar := by
  rintro (hqtuple | hqhex)
  · rcases hp with hptuple | hphex
    · exact harity ((length_pieces_of_mem_tuple hptuple).symm.trans
        (length_pieces_of_mem_tuple hqtuple))
    · exact not_mem_hex_of_mem_tuple hqtuple hphex
  · rcases hp with hptuple | hphex
    · exact not_mem_hex_of_mem_tuple hptuple hqhex
    · obtain ⟨digits, rfl, hlength, -⟩ := hphex
      obtain ⟨_, heq, hlength', -⟩ := hqhex
      cases heq
      exact hdigits _ hlength hlength'

lemma not_mem_color4_of_color3 (h : cs ∈ color3.grammar) : cs ∉ color4.grammar :=
  not_mem_grammar (by decide) (by rintro n ⟨⟩; decide) h

lemma not_mem_vector3_of_color4 (h : cs ∈ color4.grammar) : cs ∉ vector3.grammar :=
  not_mem_grammar (by decide) (fun _ _ => nofun) h

lemma mem_tuple_of_vector3 (h : cs ∈ vector3.grammar) (hcolor : cs ∈ color3.grammar) :
    cs ∈ vector3.tuple ∧ cs ∈ color3.tuple := by
  have htuple : cs ∈ vector3.tuple := by
    rcases h with htuple | hhex
    · exact htuple
    · obtain ⟨_, -, hnone, -⟩ := hhex
      cases hnone
  refine ⟨htuple, ?_⟩
  rcases hcolor with hcolor | hhex
  · exact hcolor
  · exact absurd hhex (not_mem_hex_of_mem_tuple htuple)

lemma ofLiteral?_eq (text : String) :
    ofLiteral? text =
      if color3.accepts text then some color3
      else if color4.accepts text then some color4
      else if vector3.accepts text then some vector3
      else none := by
  unfold ofLiteral? all
  simp only [List.find?_cons, List.find?_nil]
  cases color3.accepts text <;> cases color4.accepts text <;> cases vector3.accepts text <;> rfl

lemma ofLiteral?_of_mem {raw} (h : (trim raw).toList ∈ p.grammar)
    (hother : ¬ (p = vector3 ∧ (trim raw).toList ∈ color3.tuple)) :
    ofLiteral? (trim raw) = some p := by
  have hiff : ∀ q : Primitive, q.accepts (trim raw) = true ↔ (trim raw).toList ∈ q.grammar :=
    fun q => accepts_iff (trim_trim raw)
  rw [ofLiteral?_eq]
  cases p with
  | color3 => rw [if_pos ((hiff _).2 h)]
  | color4 =>
    have hcolor3 : (trim raw).toList ∉ color3.grammar := fun h3 => not_mem_color4_of_color3 h3 h
    rw [if_neg (mt (hiff _).1 hcolor3), if_pos ((hiff _).2 h)]
  | vector3 =>
    have hcolor3 : (trim raw).toList ∉ color3.grammar :=
      fun h3 => hother ⟨rfl, (mem_tuple_of_vector3 h h3).2⟩
    have hcolor4 : (trim raw).toList ∉ color4.grammar := fun h4 => not_mem_vector3_of_color4 h4 h
    rw [if_neg (mt (hiff _).1 hcolor3), if_neg (mt (hiff _).1 hcolor4), if_pos ((hiff _).2 h)]

lemma mem_grammar_of_ofLiteral? {raw} (h : ofLiteral? (trim raw) = some p) :
    (trim raw).toList ∈ p.grammar :=
  (accepts_iff (trim_trim raw)).1 (List.find?_some (p := fun q : Primitive => q.accepts _) h)

end Primitive

namespace Binder

variable {b : Binder} {raw type text : String} {p : Primitive}

lemma typed_constructs_iff (hliteral : inner? raw = none) (htype : trim type = p.typeName) :
    b.typed type raw = .ok (text, some p) ↔
      (trim raw).toList ∈ p.grammar ∧ text = p.construct (trim raw) := by
  rw [b.typed_of_literal hliteral, htype, Primitive.ofTypeName?_typeName, Option.filter_some,
    ← Primitive.accepts_iff (trim_trim raw)]
  cases p.accepts (trim raw) with
  | false => simp
  | true => simp [eq_comm]

lemma translate_of_first (hliteral : inner? raw = none)
    (h : Primitive.ofLiteral? (trim raw) = some p) (name target : String) {options}
    (hoptions : options.skipPrimitives = false) :
    b.translate name raw target options =
      .ok ⟨name, p.construct (trim raw), options.setter name target, none, some p⟩ := by
  rw [b.translate_of_literal hliteral, Options.primitive?, hoptions, if_neg (by decide), h]

lemma translate_constructs (hliteral : inner? raw = none) {name target options t}
    (h : b.translate name raw target options = .ok t) (ht : t.constructs? = some p) :
    (trim raw).toList ∈ p.grammar ∧ t.value = p.construct (trim raw) := by
  rw [b.translate_of_literal hliteral] at h
  cases hprimitive : options.primitive? (trim raw) with
  | none =>
    rw [hprimitive] at h
    cases h
    cases ht
  | some q =>
    rw [hprimitive] at h
    cases h
    cases ht
    dsimp only
    refine ⟨Primitive.mem_grammar_of_ofLiteral? ?_, rfl⟩
    unfold Options.primitive? at hprimitive
    split at hprimitive
    · cases hprimitive
    · exact hprimitive

end Binder

end Value

namespace Compile

open Value Text

/-- The state with the type of a constructed value imported, and nothing else changed. -/
def importing (s : Session) (p : Primitive) : Session :=
  { s with imports := s.imports.add .core p.typeName }

lemma run_typed {s type raw text p} (h : s.binder.typed type raw = .ok (text, some p)) :
    (typed type raw).run.run s = (.ok text, importing s p) := by
  unfold typed importPrimitive addImport
  simp only [run_bind, run_get, run_lift, h, run_modify]
  rfl

lemma run_translate {s name raw target options t p}
    (h : s.binder.translate name raw target options = .ok t) (ht : t.constructs? = some p) :
    (translate ⟨name, raw⟩ target options).run.run s = (.ok t, importing s p) := by
  unfold translate
  simp only [run_bind, run_get, run_lift, h, ht, importPrimitive, addImport, run_modify]
  rfl

/-- The grammars of the two colors, and those of vectors and colors of four parts, have no literal
in common. A literal of a declared type constructs a value of it just if it is in the grammar of
the type. Then the same literal constructs the same value without the declaration, and both import
the type and nothing else; but a vector that also writes a color of three parts constructs that
color, from the same arguments, and imports it alone. Whatever a literal constructs without a
declaration, it constructs where the type is declared. -/
theorem declared_type_agrees (s : Session) (raw : String) (hliteral : inner? raw = none) :
    (∀ cs, (cs ∈ Primitive.color3.grammar → cs ∉ Primitive.color4.grammar) ∧
      (cs ∈ Primitive.color4.grammar → cs ∉ Primitive.vector3.grammar)) ∧
    (∀ (p : Primitive) (type : String), trim type = p.typeName →
      ((∃ text, s.binder.typed type raw = .ok (text, some p)) ↔
        (trim raw).toList ∈ p.grammar) ∧
      ∀ text, s.binder.typed type raw = .ok (text, some p) →
        text = p.construct (trim raw) ∧
        (typed type raw).run.run s = (.ok text, importing s p) ∧
        ∀ (name target : String) (options : Options), options.skipPrimitives = false →
          (¬ (p = .vector3 ∧ (trim raw).toList ∈ Primitive.color3.tuple) →
            ∃ t, (translate ⟨name, raw⟩ target options).run.run s = (.ok t, importing s p) ∧
              t.value = text) ∧
          (p = .vector3 ∧ (trim raw).toList ∈ Primitive.color3.tuple →
            ∃ t args, (translate ⟨name, raw⟩ target options).run.run s =
                (.ok t, importing s .color3) ∧
              text = p.call args ∧ t.value = Primitive.color3.call args)) ∧
    ∀ (name target type : String) (options : Options) (t : Translated) (p : Primitive),
      trim type = p.typeName → s.binder.translate name raw target options = .ok t →
      t.constructs? = some p → s.binder.typed type raw = .ok (t.value, some p) := by
  refine ⟨fun cs => ⟨Primitive.not_mem_color4_of_color3, Primitive.not_mem_vector3_of_color4⟩,
    fun p type htype => ⟨?_, fun text htyped => ?_⟩, ?_⟩
  · simp only [Binder.typed_constructs_iff hliteral htype, exists_and_left, exists_eq, and_true]
  · obtain ⟨hmem, htext⟩ := (Binder.typed_constructs_iff hliteral htype).1 htyped
    refine ⟨htext, run_typed htyped, fun name target options hoptions => ?_⟩
    refine ⟨fun hother => ?_, fun ⟨hvector, hcolor⟩ => ?_⟩
    · have hfirst := Primitive.ofLiteral?_of_mem hmem hother
      have htranslate := s.binder.translate_of_first hliteral hfirst name target hoptions
      refine ⟨_, run_translate htranslate rfl, ?_⟩
      dsimp only
      exact htext.symm
    · have hfirst := Primitive.ofLiteral?_of_mem (p := .color3) (.inl hcolor) (by simp)
      have htranslate := s.binder.translate_of_first hliteral hfirst name target hoptions
      have hhash := (Primitive.head_ne_of_mem_tuple hcolor).1
      refine ⟨_, pieces raw.toList, run_translate htranslate rfl, ?_, ?_⟩
      · rw [htext, Primitive.construct_trim hhash]
      · dsimp only
        exact Primitive.construct_trim hhash .color3
  · intro name target type options t p htype htranslate ht
    exact (Binder.typed_constructs_iff hliteral htype).2
      (Binder.translate_constructs hliteral htranslate ht)

/-- A vector that also writes a color. -/
theorem declared_vector_agrees :
    let s := start "V" false .exported
    inner? " .5,0, 1" = none ∧
    s.binder.typed "Vector3" " .5,0, 1" = .ok ("new Vector3(.5, 0, 1)", some .vector3) ∧
    ∃ t args, (translate ⟨"place", " .5,0, 1"⟩ "x" {}).run.run s = (.ok t, importing s .color3) ∧
      "new Vector3(.5, 0, 1)" = Primitive.vector3.call args ∧
      t.value = Primitive.color3.call args := by
  intro s
  have htuple : inner? " .5,0, 1" = none := by decide +kernel
  have hvector3 : s.binder.typed "Vector3" " .5,0, 1" =
      .ok ("new Vector3(.5, 0, 1)", some .vector3) := by decide +kernel
  have hcolor3 : (trim " .5,0, 1").toList ∈ Primitive.color3.tuple :=
    (Primitive.isTuple_iff (trim_trim _)).1 (by decide +kernel)
  obtain ⟨-, -, hvector⟩ :=
    ((declared_type_agrees s _ htuple).2.1 .vector3 "Vector3" (by decide)).2 _ hvector3
  exact ⟨htuple, hvector3, (hvector "place" "x" {} rfl).2 ⟨rfl, hcolor3⟩⟩

end Compile

end SceneView
