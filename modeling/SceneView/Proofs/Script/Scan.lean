import Mathlib.Data.List.Infix
import SceneView.Script.Cursor

/-!
# What the scanners leave

Every scanner leaves an end of the characters it was given, and every token but the last takes at
least one character. A mark takes its own spelling, and a word that is written without an escape
takes its own text.
-/

open List

lemma List.IsSuffix.cons {α : Type} {l l' : List α} {a} (h : l <:+ l') : l <:+ a :: l' :=
  h.trans (suffix_cons a l')

namespace SceneView.Script

lemma skipGap_suffix (gap : Gap) (newline : Bool) (cs : List Char) :
    (skipGap gap newline cs).1 <:+ cs := by
  fun_induction skipGap gap newline cs with
  | case1 newline cs ih => exact ih.trans ⟨['/', '/'], rfl⟩
  | case2 newline cs ih => exact ih.trans ⟨['/', '*'], rfl⟩
  | case3 _ _ _ _ _ _ ih | case4 _ _ _ _ _ _ _ ih => exact ih.cons
  | case5 newline c cs => exact suffix_refl _
  | case6 _ _ _ _ ih | case7 _ _ _ _ ih => exact ih.cons
  | case8 newline cs ih => exact ih.trans ⟨['*', '/'], rfl⟩
  | case9 newline c cs _ ih => exact ih.cons
  | case10 | case11 => exact suffix_refl _

variable {cs rest left : List Char} {c : Char}

lemma readCodePoint?_suffix {n} (h : readCodePoint? cs = some (n, rest)) : rest <:+ cs := by
  unfold readCodePoint? at h
  split at h
  · next cs =>
    have hdrop : cs.dropWhile isHex <:+ '{' :: cs :=
      (dropWhile_suffix _).cons
    dsimp only at h
    split at h
    · next heq =>
      split at h
      · cases h
      · cases h
        exact (suffix_cons _ _).trans (heq ▸ hdrop)
    · cases h
  · next a b c d rest _ =>
    split at h
    · cases h
      exact ⟨[a, b, c, d], rfl⟩
    · cases h
  · cases h

lemma readEscape?_suffix {inTemplate} (h : readEscape? inTemplate cs = some rest) :
    rest <:+ cs := by
  unfold readEscape? at h
  split at h
  · obtain ⟨⟨n, left⟩, hread, rfl⟩ := Option.map_eq_some_iff.1 h
    exact (readCodePoint?_suffix hread).cons
  · next a b cs =>
    split at h
    · cases h
      exact ⟨['x', a, b], rfl⟩
    · cases h
  · cases h
  · cases h
    exact ⟨['\r', '\n'], rfl⟩
  iterate 2
    · split at h
      · cases h
      · cases h
        exact suffix_cons _ _
  · cases h

lemma readWord_suffix (fuel : Nat) (cs : List Char) : (readWord fuel cs).2.2.2 <:+ cs := by
  fun_induction readWord fuel cs with
  | case1 cs => exact suffix_refl _
  | case2 fuel cs n rest hread c hpart word _ sound left heq ih =>
    rw [heq] at ih
    exact (ih.trans (readCodePoint?_suffix hread)).trans ⟨['\\', 'u'], rfl⟩
  | case3 fuel cs n rest hread c hpart =>
    exact (readCodePoint?_suffix hread).trans ⟨['\\', 'u'], rfl⟩
  | case4 fuel cs hread => exact ⟨['\\', 'u'], rfl⟩
  | case5 fuel c cs _ hpart word escaped sound left heq ih =>
    rw [heq] at ih
    exact ih.cons
  | case6 fuel c cs => exact suffix_cons _ _
  | case7 | case8 => exact suffix_refl _

lemma readWord_spelled {fuel word} (h : readWord fuel cs = (word, false, true, left)) :
    cs = word ++ left := by
  induction fuel generalizing cs word with
  | zero =>
    cases h
    rfl
  | succ fuel ih =>
    unfold readWord at h
    split at h
    · exact absurd ‹_› (Nat.succ_ne_zero _)
    · split at h
      · dsimp only at h
        split at h <;> cases h
      · cases h
    · next fuel' c cs _ heq =>
      cases heq
      split at h
      · cases hrest : readWord fuel cs with
        | mk word' r =>
          obtain ⟨escaped, sound, left'⟩ := r
          rw [hrest] at h
          cases h
          rw [ih hrest]
          rfl
      · split at h
        · cases h
        · cases h
          rfl
    · cases h
      rfl

lemma readDigits_suffix (p : Char → Bool) (cs : List Char) : (readDigits p cs).2 <:+ cs := by
  fun_induction readDigits p cs with
  | case1 c cs _ ih => exact ih.trans ⟨['_', c], rfl⟩
  | case2 | case4 => exact suffix_cons _ _
  | case3 c cs _ _ ih => exact ih.cons
  | case5 | case6 => exact suffix_refl _

lemma readDigitRun_suffix (p : Char → Bool) (cs : List Char) : (readDigitRun p cs).2 <:+ cs := by
  unfold readDigitRun
  split
  · split
    · exact (readDigits_suffix p _).cons
    · exact suffix_refl _
  · exact suffix_refl _

lemma readExponent_suffix (cs : List Char) : (readExponent cs).2 <:+ cs := by
  unfold readExponent
  split
  · next c cs =>
    split
    · split
      · exact (readDigitRun_suffix _ _).trans ⟨[c, '+'], rfl⟩
      · exact (readDigitRun_suffix _ _).trans ⟨[c, '-'], rfl⟩
      · exact (readDigitRun_suffix _ _).cons
    · exact suffix_refl _
  · exact suffix_refl _

lemma readFraction_suffix (cs : List Char) : (readFraction cs).2 <:+ cs := by
  unfold readFraction endNumber
  split
  next ok digits hdigits =>
  have hleft : digits <:+ cs := by
    split at hdigits
    · split at hdigits
      · have hread := readDigits_suffix Char.isDigit (by assumption)
        rw [hdigits] at hread
        exact hread.cons
      · cases hdigits
        exact suffix_refl _
    · cases hdigits
      exact suffix_refl _
  exact (readExponent_suffix digits).trans hleft

lemma readDecimalRest_suffix (ok : Bool) (cs : List Char) : (readDecimalRest ok cs).2 <:+ cs := by
  unfold readDecimalRest
  split
  · exact (readFraction_suffix _).cons
  · exact suffix_cons _ _
  · exact readExponent_suffix _

lemma readBased_suffix (p : Char → Bool) (cs : List Char) : (readBased p cs).2 <:+ cs := by
  unfold readBased
  dsimp only
  split
  · next heq => exact (suffix_cons _ _).trans (heq ▸ readDigitRun_suffix p cs)
  · exact readDigitRun_suffix p cs

lemma readNumber_suffix (first : Char) (cs : List Char) : (readNumber first cs).2 <:+ cs := by
  unfold readNumber
  split
  · split
    · next c rest =>
      have hcons : rest <:+ c :: rest := suffix_cons _ _
      have hdrop : (c :: rest).dropWhile Char.isDigit <:+ c :: rest := dropWhile_suffix _
      split
      · exact (readBased_suffix _ _).trans hcons
      split
      · exact (readBased_suffix _ _).trans hcons
      split
      · exact (readBased_suffix _ _).trans hcons
      split
      · dsimp only
        split
        · exact hdrop
        split
        · exact hdrop
        · exact (readDecimalRest_suffix _ _).trans hdrop
      split
      · exact hcons
      · exact readDecimalRest_suffix _ _
    · exact suffix_refl _
  · exact (readDecimalRest_suffix _ _).trans (readDigits_suffix _ _)

lemma readString_suffix (quote : Char) (fuel : Nat) (sound : Bool) (cs : List Char) :
    (readString quote fuel sound cs).2 <:+ cs := by
  fun_induction readString quote fuel sound cs with
  | case1 | case5 | case7 => exact suffix_refl _
  | case2 fuel sound cs rest hread ih =>
    exact (ih.trans (readEscape?_suffix hread)).cons
  | case3 _ _ _ _ ih | case6 _ _ _ _ _ _ _ ih => exact ih.cons
  | case4 => exact suffix_cons _ _

lemma readTemplate_suffix (first : Bool) (fuel : Nat) (sound : Bool) (cs : List Char) :
    (readTemplate first fuel sound cs).2 <:+ cs := by
  fun_induction readTemplate first fuel sound cs with
  | case1 | case7 => exact suffix_refl _
  | case2 fuel sound cs rest hread ih =>
    exact (ih.trans (readEscape?_suffix hread)).cons
  | case3 _ _ _ _ ih | case6 _ _ _ _ _ _ _ ih => exact ih.cons
  | case4 => exact ⟨['$', '{'], rfl⟩
  | case5 => exact suffix_cons _ _

lemma readFlags_suffix (seen cs : List Char) : (readFlags seen cs).2 <:+ cs := by
  fun_induction readFlags seen cs with
  | case1 seen c cs _ ok left heq ih =>
    rw [heq] at ih
    exact ih.cons
  | case2 | case3 => exact suffix_refl _

lemma readPattern_suffix (escape inClass : Bool) (cs : List Char) :
    (readPattern escape inClass cs).2 <:+ cs := by
  fun_induction readPattern escape inClass cs with
  | case1 => exact suffix_refl _
  | case2 _ _ _ _ ih => exact ih.cons
  | case3 escape inClass c cs _ _ _ ok left heq =>
    have hflags := readFlags_suffix [] cs
    rw [heq] at hflags
    exact hflags.cons
  | case4 _ _ _ _ _ _ _ _ ih | case5 _ _ _ _ _ _ _ _ _ ih
  | case6 _ _ _ _ _ _ _ _ _ ih => exact ih.cons
  | case7 => exact suffix_refl _

def Mark.chars : Mark → List Char
  | .leftParen => ['(']
  | .rightParen => [')']
  | .leftBracket => ['[']
  | .rightBracket => [']']
  | .leftBrace => ['{']
  | .rightBrace => ['}']
  | .semicolon => [';']
  | .comma => [',']
  | .colon => [':']
  | .dot => ['.']
  | .ellipsis => ['.', '.', '.']
  | .question => ['?']
  | .questionDot => ['?', '.']
  | .arrow => ['=', '>']
  | .atSign => ['@']
  | .bang => ['!']
  | .tilde => ['~']
  | .plus => ['+']
  | .minus => ['-']
  | .star => ['*']
  | .slash => ['/']
  | .percent => ['%']
  | .power => ['*', '*']
  | .increment => ['+', '+']
  | .decrement => ['-', '-']
  | .amp => ['&']
  | .pipe => ['|']
  | .caret => ['^']
  | .ampAmp => ['&', '&']
  | .pipePipe => ['|', '|']
  | .coalesce => ['?', '?']
  | .less => ['<']
  | .greater => ['>']
  | .lessEq => ['<', '=']
  | .greaterEq => ['>', '=']
  | .shiftLeft => ['<', '<']
  | .shiftRight => ['>', '>']
  | .shiftRightZero => ['>', '>', '>']
  | .equal => ['=', '=']
  | .notEqual => ['!', '=']
  | .identical => ['=', '=', '=']
  | .notIdentical => ['!', '=', '=']
  | .assign => ['=']
  | .plusAssign => ['+', '=']
  | .minusAssign => ['-', '=']
  | .starAssign => ['*', '=']
  | .slashAssign => ['/', '=']
  | .percentAssign => ['%', '=']
  | .powerAssign => ['*', '*', '=']
  | .shiftLeftAssign => ['<', '<', '=']
  | .shiftRightAssign => ['>', '>', '=']
  | .shiftRightZeroAssign => ['>', '>', '>', '=']
  | .ampAssign => ['&', '=']
  | .pipeAssign => ['|', '=']
  | .caretAssign => ['^', '=']
  | .ampAmpAssign => ['&', '&', '=']
  | .pipePipeAssign => ['|', '|', '=']
  | .coalesceAssign => ['?', '?', '=']

lemma Mark.chars_ne_nil (m : Mark) : m.chars ≠ [] := by
  cases m <;> exact cons_ne_nil _ _

lemma readMark?_spelled {m} (h : readMark? cs = some (m, left)) : cs = m.chars ++ left := by
  unfold readMark? at h
  split at h
  case h_16 =>
    split at h
    · split at h <;> cases h <;> rfl
    · cases h
      rfl
  all_goals cases h
  all_goals rfl

lemma readGreater_spelled (cs : List Char) :
    '>' :: cs = (readGreater cs).1.chars ++ (readGreater cs).2 := by
  unfold readGreater
  split <;> rfl

/-- What a token, with its text, whether it is escaped and the characters left, says about the
characters it is read from. -/
structure Spells (cs : List Char) (token : Kind × String × Bool × List Char) : Prop where
  suffix : token.2.2.2 <:+ cs
  shorter : cs ≠ [] → token.2.2.2.length < cs.length
  finish : token.1 = .finish ↔ cs = []
  mark : ∀ m, token.1 = .mark m → cs = m.chars ++ token.2.2.2
  word : ∀ k, token.1 = .keyword k → token.2.2.1 = false →
    cs = token.2.1.toList ++ token.2.2.2 ∧ Keyword.ofSpelling? token.2.1 = some k

/-- The kinds of tokens whose characters no rule looks at again. -/
def Kind.IsInert (kind : Kind) : Prop :=
  kind ≠ .finish ∧ (∀ m, kind ≠ .mark m) ∧ ∀ k, kind ≠ .keyword k

lemma Kind.IsInert.malformed : Kind.malformed.IsInert := ⟨nofun, nofun, nofun⟩

lemma Kind.IsInert.number : Kind.number.IsInert := ⟨nofun, nofun, nofun⟩

lemma Kind.IsInert.bigint : Kind.bigint.IsInert := ⟨nofun, nofun, nofun⟩

lemma Kind.IsInert.ite {p} [Decidable p] {k k' : Kind} (h : k.IsInert) (h' : k'.IsInert) :
    (if p then k else k').IsInert := by
  split
  · exact h
  · exact h'

lemma Spells.of_inert {kind text escaped} (hkind : kind.IsInert) (hleft : left <:+ rest) :
    Spells (c :: rest) (kind, text, escaped, left) where
  suffix := hleft.cons
  shorter _ := Nat.lt_succ_of_le hleft.length_le
  finish := ⟨fun h => absurd h hkind.1, nofun⟩
  mark m h := absurd h (hkind.2.1 m)
  word k h := absurd h (hkind.2.2 k)

lemma Spells.of_pair {token : Kind × List Char} (hkind : token.1.IsInert)
    (hleft : token.2 <:+ rest) :
    Spells (c :: rest) (match token with | (kind, left) => (kind, "", false, left)) :=
  .of_inert hkind hleft

lemma endNumber_isInert {kind : Kind} (h : kind.IsInert) (ok : Bool) (cs : List Char) :
    (endNumber kind ok cs).1.IsInert :=
  h.ite .malformed

lemma readFraction_isInert (cs : List Char) : (readFraction cs).1.IsInert :=
  endNumber_isInert .number _ _

lemma readDecimalRest_isInert (ok : Bool) (cs : List Char) :
    (readDecimalRest ok cs).1.IsInert := by
  unfold readDecimalRest
  split
  · exact (readFraction_isInert _).ite .malformed
  · exact endNumber_isInert .bigint _ _
  · exact endNumber_isInert .number _ _

lemma readBased_isInert (p : Char → Bool) (cs : List Char) : (readBased p cs).1.IsInert := by
  unfold readBased
  dsimp only
  split
  · exact endNumber_isInert .bigint _ _
  · exact endNumber_isInert .number _ _

lemma readNumber_isInert (first : Char) (cs : List Char) : (readNumber first cs).1.IsInert := by
  unfold readNumber
  split
  · split
    · split
      · exact readBased_isInert _ _
      split
      · exact readBased_isInert _ _
      split
      · exact readBased_isInert _ _
      split
      · dsimp only
        split
        · exact endNumber_isInert .number _ _
        split
        · exact .malformed
        · exact readDecimalRest_isInert _ _
      split
      · exact .malformed
      · exact readDecimalRest_isInert _ _
    · exact .number
  · exact readDecimalRest_isInert _ _

lemma readString_isInert (quote : Char) (fuel : Nat) (sound : Bool) (cs : List Char) :
    (readString quote fuel sound cs).1.IsInert := by
  fun_induction readString quote fuel sound cs with
  | case2 _ _ _ _ _ ih | case3 _ _ _ _ ih => exact ih
  | case4 => exact Kind.IsInert.ite ⟨nofun, nofun, nofun⟩ .malformed
  | case6 _ _ _ _ _ _ _ ih => exact ih
  | _ => exact .malformed

lemma readTemplate_isInert (first : Bool) (fuel : Nat) (sound : Bool) (cs : List Char) :
    (readTemplate first fuel sound cs).1.IsInert := by
  fun_induction readTemplate first fuel sound cs with
  | case2 _ _ _ _ _ ih | case3 _ _ _ _ ih => exact ih
  | case4 | case5 => exact ⟨nofun, nofun, nofun⟩
  | case6 _ _ _ _ _ _ _ ih => exact ih
  | _ => exact .malformed

lemma readPattern_isInert (escape inClass : Bool) (cs : List Char) :
    (readPattern escape inClass cs).1.IsInert := by
  fun_induction readPattern escape inClass cs with
  | case2 _ _ _ _ ih => exact ih
  | case3 => exact Kind.IsInert.ite ⟨nofun, nofun, nofun⟩ .malformed
  | case4 _ _ _ _ _ _ _ _ ih | case5 _ _ _ _ _ _ _ _ _ ih | case6 _ _ _ _ _ _ _ _ _ ih => exact ih
  | _ => exact .malformed

lemma readWord_shorter {fuel} (h : Text.isIdentifierStart c = true ∨ c = '\\') :
    (readWord (fuel + 1) (c :: cs)).2.2.2.length < (c :: cs).length := by
  unfold readWord
  split
  · exact absurd ‹_› (Nat.succ_ne_zero _)
  · next heq =>
    cases heq
    split
    · next n rest hread =>
      have hrest := (readCodePoint?_suffix hread).length_le
      dsimp only
      split
      · refine Nat.lt_of_le_of_lt (readWord_suffix _ rest).length_le ?_
        simp only [length_cons]
        omega
      · simp only [length_cons]
        omega
    · simp only [length_cons]
      omega
  · next heq =>
    cases heq
    split
    · exact Nat.lt_succ_of_le (readWord_suffix _ _).length_le
    · next hpart =>
      obtain h | rfl := h
      · exact absurd (Text.isIdentifierPart_of_start h) hpart
      · exact Nat.lt_succ_self _
  · next heq => cases heq

lemma readName_spells (h : Text.isIdentifierStart c = true ∨ c = '\\') :
    Spells (c :: cs) (readName (c :: cs)) := by
  have hsuffix := readWord_suffix (c :: cs).length (c :: cs)
  have hshorter : (readWord (c :: cs).length (c :: cs)).2.2.2.length < (c :: cs).length :=
    readWord_shorter h
  unfold readName
  cases hword : readWord (c :: cs).length (c :: cs) with
  | mk word r =>
  obtain ⟨escaped, sound, left⟩ := r
  rw [hword] at hsuffix hshorter
  dsimp only
  split
  · next hsound =>
    split
    · next k hk =>
      refine ⟨hsuffix, fun _ => hshorter, ⟨nofun, nofun⟩, nofun, fun k' hkind hescaped => ?_⟩
      cases hkind
      obtain ⟨rfl, -⟩ := Bool.and_eq_true_iff.1 hsound
      subst hescaped
      rw [String.toList_ofList]
      exact ⟨readWord_spelled hword, hk⟩
    · exact ⟨hsuffix, fun _ => hshorter, ⟨nofun, nofun⟩, nofun, nofun⟩
  · exact ⟨hsuffix, fun _ => hshorter, ⟨nofun, nofun⟩, nofun, nofun⟩

lemma readName_suffix (cs : List Char) : (readName cs).2.2.2 <:+ cs := by
  have hsuffix := readWord_suffix cs.length cs
  unfold readName
  dsimp only
  split
  · split
    · exact hsuffix
    · exact hsuffix
  · exact hsuffix

lemma readMark?_spells (c : Char) (cs : List Char) :
    Spells (c :: cs) (match readMark? (c :: cs) with
      | some (m, left) => (.mark m, "", false, left)
      | none => (.malformed, "", false, cs)) := by
  split
  · next m left hmark =>
    have hspelled := readMark?_spelled hmark
    have hchars := length_pos_of_ne_nil m.chars_ne_nil
    have hlength : left.length < (c :: cs).length := by
      rw [hspelled, length_append]
      omega
    refine ⟨⟨_, hspelled.symm⟩, fun _ => hlength, ⟨nofun, nofun⟩, fun m' h => ?_, nofun⟩
    cases h
    exact hspelled
  · exact .of_inert .malformed (suffix_refl _)

lemma readToken_spells (cs : List Char) :
    Spells cs (readToken cs) := by
  unfold readToken
  split
  · exact ⟨suffix_refl _, fun h => absurd rfl h, ⟨fun _ => rfl, fun _ => rfl⟩, nofun, nofun⟩
  · next rest =>
    have hleft := readName_suffix rest
    generalize readName rest = r at hleft
    obtain ⟨kind, text, escaped, left⟩ := r
    split
    · next heq =>
      cases heq
      exact .of_inert .malformed hleft
    · next heq =>
      cases heq
      exact .of_inert ⟨nofun, nofun, nofun⟩ hleft
  · next c rest _ =>
    split
    · next h =>
      rw [Bool.or_eq_true, beq_iff_eq] at h
      exact readName_spells h
    split
    · exact .of_pair (readNumber_isInert _ _) (readNumber_suffix _ _)
    split
    · exact .of_pair (readString_isInert _ _ _ _) (readString_suffix _ _ _ _)
    split
    · exact .of_pair (readTemplate_isInert _ _ _ _) (readTemplate_suffix _ _ _ _)
    split
    · split
      · exact .of_pair (readFraction_isInert _) (readFraction_suffix _)
      · exact readMark?_spells _ _
    · exact readMark?_spells _ _

end SceneView.Script
