import Mathlib.Algebra.Group.Nat.Even
import SceneView.Proofs.Literal

/-!
# Text in quotes

Text is put in quotes with a backslash before each quote and backslash in it. Whatever the text, it
can be read back, and no quote in it ends the literal. A line break in the text is not escaped: it
stays as it is, and a literal with a line break is none of the language.
-/

open List

namespace SceneView

namespace Text

/-- The characters with a backslash before each occurrence of one of them. -/
def backslashed (c : Char) (cs : List Char) : List Char :=
  cs.flatMap fun d => if d = c then ['\\', d] else [d]

lemma escape_eq_backslashed (cs : List Char) :
    escape cs = backslashed '\'' (backslashed '\\' cs) := by
  induction cs with
  | nil => rfl
  | cons c cs ih =>
    have hsplit : backslashed '\'' (backslashed '\\' (c :: cs)) =
        backslashed '\'' (if c = '\\' then ['\\', c] else [c]) ++
          backslashed '\'' (backslashed '\\' cs) := flatMap_append
    rw [hsplit, ← ih, escape]
    by_cases hbackslash : c = '\\'
    · subst hbackslash
      rfl
    · by_cases hquote : c = '\''
      · subst hquote
        rfl
      · simp [needsEscape, backslashed, hbackslash, hquote]

variable {c : Char} {front back : List Char}

lemma mem_escape (hc : c ≠ '\\') (cs : List Char) : c ∈ escape cs ↔ c ∈ cs := by
  induction cs with
  | nil => rfl
  | cons d cs ih =>
    rw [escape]
    split
    · simp only [mem_cons, hc, ih, false_or]
    · simp only [mem_cons, ih]

lemma toList_quote (s : String) : (quote s).toList = '\'' :: (escape s.toList ++ ['\'']) := by
  simp [quote]

lemma quote_injective : Function.Injective quote := by
  intro s t h
  have hchars := congrArg String.toList h
  rw [toList_quote, toList_quote] at hchars
  have hinside : escape s.toList = escape t.toList :=
    append_cancel_right (List.cons.inj hchars).2
  have hread := congrArg unescape? hinside
  rw [unescape?_escape, unescape?_escape] at hread
  exact String.toList_inj.1 (Option.some.inj hread)

def backslashesAtEnd (cs : List Char) : Nat :=
  (cs.rtakeWhile (· == '\\')).length

lemma backslashesAtEnd_backslash (cs : List Char) :
    backslashesAtEnd (cs ++ ['\\']) = backslashesAtEnd cs + 1 := by
  rw [backslashesAtEnd, rtakeWhile_concat_pos _ _ _ rfl, length_append]
  rfl

lemma backslashesAtEnd_of_ne (hc : c ≠ '\\') (cs : List Char) :
    backslashesAtEnd (cs ++ [c]) = 0 := by
  rw [backslashesAtEnd, rtakeWhile_concat_neg _ _ _ (by simpa using hc)]
  rfl

lemma even_backslashes_iff {cs before} (hbefore : Even (backslashesAtEnd before))
    (h : escape cs ++ ['\''] = front ++ '\'' :: back) :
    Even (backslashesAtEnd (before ++ front)) ↔ back = [] := by
  induction cs generalizing before front with
  | nil =>
    cases front with
    | nil =>
      cases h
      simpa using hbefore
    | cons c front => simp [escape] at h
  | cons c cs ih =>
    rw [escape] at h
    split at h
    · next hescape =>
      obtain _ | ⟨_, _ | ⟨_, front⟩⟩ := front
      · cases h
      · -- This is the quote of an escape.
        cases h
        rw [backslashesAtEnd_backslash, Nat.even_add_one]
        simpa using hbefore
      · simp only [cons_append, List.cons.injEq] at h
        obtain ⟨rfl, rfl, h⟩ := h
        have hafter : Even (backslashesAtEnd (before ++ ['\\'] ++ [c])) := by
          by_cases hc : c = '\\'
          · rw [hc, backslashesAtEnd_backslash, backslashesAtEnd_backslash, Nat.even_add_one,
              Nat.even_add_one, not_not]
            exact hbefore
          · rw [backslashesAtEnd_of_ne hc]
            exact Even.zero
        have := ih hafter h
        simpa using this
    · next hplain =>
      cases front with
      | nil =>
        cases h
        exact absurd rfl hplain
      | cons d front =>
        simp only [cons_append, List.cons.injEq] at h
        obtain ⟨rfl, h⟩ := h
        have hc : c ≠ '\\' := by
          rintro rfl
          exact hplain rfl
        have hafter : Even (backslashesAtEnd (before ++ [c])) := by
          rw [backslashesAtEnd_of_ne hc]
          exact Even.zero
        have := ih hafter h
        simpa using this

/-- Text in quotes is the text, backslashed, between two quotes, and reads back as the text. A quote
in it has an even number of backslashes before it, and so is not escaped, exactly if it is the first
character or the last one. -/
theorem quote_reversible :
    Function.Injective quote ∧ ∀ text : String, ∃ inside : List Char,
      (quote text).toList = '\'' :: (inside ++ ['\'']) ∧
      inside = backslashed '\'' (backslashed '\\' text.toList) ∧
      unescape? inside = some text.toList ∧
      ∀ front back, (quote text).toList = front ++ '\'' :: back →
        (Even (backslashesAtEnd front) ↔ front = [] ∨ back = []) := by
  refine ⟨quote_injective, fun text => ⟨escape text.toList, toList_quote text,
    escape_eq_backslashed _, unescape?_escape _, fun front back h => ?_⟩⟩
  rw [toList_quote] at h
  cases front with
  | nil => simp [backslashesAtEnd]
  | cons c front =>
    obtain ⟨rfl, hrest⟩ := List.cons.inj h
    have hbefore : Even (backslashesAtEnd ['\'']) := by decide
    simpa using even_backslashes_iff hbefore hrest

example : (quote "\\'\\").toList = ['\'', '\\', '\\', '\\', '\'', '\\', '\\', '\''] := by decide

def isBreak (c : Char) : Bool :=
  c == '\n' || c == '\r'

lemma isBreak_iff : isBreak c = true ↔ c = '\n' ∨ c = '\r' := by
  simp [isBreak]

/-- A line break of the text stands between characters that are not white space. -/
def BreaksInside (text : String) : Prop :=
  ∃ front c back, text.toList = front ++ c :: back ∧ isBreak c = true ∧
    (∃ d ∈ front, isBlank d = false) ∧ ∃ d ∈ back, isBlank d = false

lemma BeginsFirm.exists_firm (h : BeginsFirm (front ++ c :: back)) (hc : isBlank c = true) :
    ∃ d ∈ front, isBlank d = false := by
  obtain ⟨d, rest, heq, hd⟩ := h
  cases front with
  | nil =>
    cases heq
    exact absurd hc (by simp [hd])
  | cons d' front =>
    cases heq
    exact ⟨d, mem_cons_self, hd⟩

lemma EndsFirm.exists_firm (h : EndsFirm (front ++ c :: back)) (hc : isBlank c = true) :
    ∃ d ∈ back, isBlank d = false := by
  obtain ⟨start, d, heq, hd⟩ := h
  obtain rfl | ⟨back, e, rfl⟩ := eq_nil_or_concat' back
  · obtain ⟨-, hlast⟩ := append_inj' heq rfl
    cases hlast
    exact absurd hc (by simp [hd])
  · rw [← cons_append, ← append_assoc] at heq
    obtain ⟨-, hlast⟩ := append_inj' heq rfl
    cases hlast
    exact ⟨d, by simp, hd⟩

lemma breaksInside_iff {text} : BreaksInside text ↔ ∃ c ∈ (trim text).toList, isBreak c = true := by
  have htrim : (trim text).toList = trimBy isBlank text.toList := String.toList_ofList
  rw [htrim]
  constructor
  · rintro ⟨front, c, back, htext, hc, hfront, hback⟩
    refine ⟨c, ?_, hc⟩
    rw [htext, trimBy_between hfront hback]
    simp
  · rintro ⟨c, hmem, hc⟩
    have hblank : isBlank c = true := by
      obtain rfl | rfl := isBreak_iff.1 hc <;> rfl
    obtain ⟨before, after, htext, -, -⟩ := exists_trimBy isBlank text.toList
    obtain ⟨hbegins, hends⟩ := trimBy_firm (ne_nil_of_mem hmem)
    obtain ⟨front, back, hsplit⟩ := append_of_mem hmem
    rw [hsplit] at htext hbegins hends
    obtain ⟨d, hd, hfront⟩ := hbegins.exists_firm hblank
    obtain ⟨e, he, hback⟩ := hends.exists_firm hblank
    exact ⟨before ++ front, c, back ++ after, by simp [htext], hc,
      ⟨d, mem_append_right _ hd, hfront⟩, ⟨e, mem_append_left _ he, hback⟩⟩

lemma quote_breaks_iff {text} :
    (∀ c ∈ (quote text).toList, isBreak c = false) ↔ ∀ c ∈ text.toList, isBreak c = false := by
  have hmem : ∀ {c : Char}, isBreak c = true → (c ∈ (quote text).toList ↔ c ∈ text.toList) := by
    intro c hc
    have hne : c ≠ '\\' ∧ c ≠ '\'' := by
      obtain rfl | rfl := isBreak_iff.1 hc <;> decide
    simp [toList_quote, mem_escape hne.1, hne.2]
  simp only [← Bool.not_eq_true]
  exact forall_congr' fun c => ⟨fun h hc hbreak => h ((hmem hbreak).2 hc) hbreak,
    fun h hc hbreak => h ((hmem hbreak).1 hc) hbreak⟩

end Text

namespace Script

open Text

lemma readEscape?_of_needsEscape {c} (hc : needsEscape c = true) (cs : List Char) :
    readEscape? false (c :: cs) = some cs := by
  have hchars : c = '\\' ∨ c = '\'' := by simpa [needsEscape] using hc
  obtain rfl | rfl := hchars <;> rfl

lemma readString_escape {fuel} (cs rest : List Char) (hfuel : (escape cs).length < fuel) :
    readString '\'' fuel true (escape cs ++ '\'' :: rest) = (.string, rest) ↔
      ∀ c ∈ cs, isBreak c = false := by
  induction cs generalizing fuel with
  | nil =>
    obtain ⟨fuel, rfl⟩ := Nat.exists_eq_add_one.2 hfuel
    simp [escape, readString]
  | cons c cs ih =>
    obtain ⟨fuel, rfl⟩ := Nat.exists_eq_add_one.2 (Nat.zero_lt_of_lt hfuel)
    by_cases hescape : needsEscape c = true
    · have hbreak : isBreak c = false := by
        have hchars : c = '\\' ∨ c = '\'' := by simpa [needsEscape] using hescape
        obtain rfl | rfl := hchars <;> rfl
      rw [escape, if_pos hescape] at hfuel ⊢
      have hrest : (escape cs).length < fuel := by
        simp only [length_cons] at hfuel
        omega
      rw [cons_append, cons_append, readString, readEscape?_of_needsEscape hescape]
      simp [ih hrest, hbreak]
    · rw [escape, if_neg hescape] at hfuel ⊢
      have hrest : (escape cs).length < fuel := by
        simp only [length_cons] at hfuel
        omega
      have hplain : c ≠ '\\' ∧ c ≠ '\'' := by simpa [needsEscape] using hescape
      have hstep : readString '\'' (fuel + 1) true (c :: (escape cs ++ '\'' :: rest)) =
          if isBreak c then (.malformed, c :: (escape cs ++ '\'' :: rest))
          else readString '\'' fuel true (escape cs ++ '\'' :: rest) := by
        rw [readString.eq_3 _ _ _ _ _ hplain.1]
        simp [hplain.2, isBreak]
      rw [cons_append, hstep]
      cases hbreak : isBreak c with
      | false => simp [ih hrest, hbreak]
      | true => simp [hbreak]

/-- The text is one string of the language, in full. -/
def IsString (text : String) : Prop :=
  readToken text.toList = (.string, "", false, [])

instance (text : String) : Decidable (IsString text) :=
  inferInstanceAs (Decidable (_ = _))

lemma isString_quote_iff {text} : IsString (quote text) ↔ ∀ c ∈ text.toList, isBreak c = false := by
  have hfuel : (escape text.toList).length < (quote text).toList.length := by
    rw [toList_quote, length_cons, length_append]
    omega
  have htoken : readToken (quote text).toList =
      ((readString '\'' (quote text).toList.length true (escape text.toList ++ ['\''])).1, "",
        false,
        (readString '\'' (quote text).toList.length true (escape text.toList ++ ['\''])).2) := by
    rw [toList_quote]
    rfl
  rw [IsString, htoken, ← readString_escape text.toList [] hfuel]
  simp [Prod.ext_iff]

end Script

namespace Value

open Text

/-- A literal is put in quotes by an attribute that quotes what is neither a number nor a value of a
known type, as an argument in quotes, and as a value of the type of texts. The outcome is the same,
and it has no line break in it, and is a string of the language, exactly if the literal has no line
break between characters that are not white space. -/
theorem quoted_on_one_line_iff (b : Binder) (raw : String) (hliteral : inner? raw = none) :
    (∀ name target options, options.quoteIfNeeded = true →
      ∃ t, b.translate name raw target options = .ok t ∧
        (t.value = quote (trim raw) ∨ (t.value = trim raw ∧ isNumeric (trim raw) = true) ∨
          ∃ p, t.constructs? = some p ∧ p.accepts (trim raw) = true)) ∧
    b.argument raw true = .ok (quote (trim raw)) ∧
    (∀ type, trim type = "string" → b.typed type raw = .ok (quote (trim raw), none)) ∧
    ((∀ c ∈ (quote (trim raw)).toList, c ≠ '\n' ∧ c ≠ '\r') ↔ ¬ BreaksInside raw) ∧
    (Script.IsString (quote (trim raw)) ↔ ¬ BreaksInside raw) := by
  have hbreaks : (∀ c ∈ (trim raw).toList, isBreak c = false) ↔ ¬ BreaksInside raw := by
    rw [breaksInside_iff]
    simp
  refine ⟨fun name target options hquote => ?_, b.argument_of_literal hliteral true,
    fun type htype => ?_, ?_, Script.isString_quote_iff.trans hbreaks⟩
  · rw [b.translate_of_literal hliteral]
    cases hprimitive : options.primitive? (trim raw) with
    | some p =>
      refine ⟨_, rfl, .inr (.inr ⟨p, rfl, ?_⟩)⟩
      exact Options.accepts_of_primitive? hprimitive
    | none =>
      refine ⟨_, rfl, ?_⟩
      cases hnumeric : isNumeric (trim raw) with
      | true => exact .inr (.inl ⟨by simp, rfl⟩)
      | false => exact .inl (by simp [hquote])
  · rw [b.typed_of_literal hliteral, htype]
    rfl
  · rw [← hbreaks, ← quote_breaks_iff]
    simp [isBreak]

/-- Line breaks at the ends of a literal are trimmed, one inside it is not. -/
theorem ends_on_one_line :
    inner? "\n it's\r\n" = none ∧ ¬ BreaksInside "\n it's\r\n" ∧
    inner? "it's\nit" = none ∧ BreaksInside "it's\nit" ∧
    Binder.argument ⟨"_host", "_engine"⟩ "\n it's\r\n" true = .ok "'it\\'s'" ∧
    Binder.argument ⟨"_host", "_engine"⟩ "it's\nit" true = .ok "'it\\'s\nit'" := by
  have hends : inner? "\n it's\r\n" = none := by decide +kernel
  have hinside : inner? "it's\nit" = none := by decide +kernel
  obtain ⟨-, hquoted, -, -, hstring⟩ := quoted_on_one_line_iff ⟨"_host", "_engine"⟩ _ hends
  obtain ⟨-, hquoted', -, -, hstring'⟩ := quoted_on_one_line_iff ⟨"_host", "_engine"⟩ _ hinside
  refine ⟨hends, hstring.1 (by decide +kernel), hinside, ?_, hquoted.trans (by decide +kernel),
    hquoted'.trans (by decide +kernel)⟩
  exact not_not.1 fun hunbroken => absurd (hstring'.2 hunbroken) (by decide +kernel)

/-- A literal of two lines is put in quotes with its line break, which no string of the language
has. -/
theorem two_lines_quoted :
    (Binder.translate ⟨"_host", "_engine"⟩ "text" "a\nb" "x" { quoteIfNeeded := true }).map
      (·.value) = .ok "'a\nb'" ∧
    Binder.argument ⟨"_host", "_engine"⟩ "a\nb" true = .ok "'a\nb'" ∧
    Binder.typed ⟨"_host", "_engine"⟩ "string" "a\nb" = .ok ("'a\nb'", none) ∧
    '\n' ∈ "'a\nb'".toList ∧ ¬ Script.IsString "'a\nb'" := by
  decide +kernel

end Value

end SceneView
