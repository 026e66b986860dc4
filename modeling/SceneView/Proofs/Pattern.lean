import Mathlib.Computability.Language
import Mathlib.Data.List.TakeWhile
import SceneView.Value.Literal

/-!
# Patterns of numbers

The numbers of literals are those of three regular languages: numbers that need no quotes, the parts
of colors and the coordinates of vectors. The digits are those of every script. Reading a literal
character by character recognises just these languages.
-/

open List

namespace SceneView.Value

open scoped Computability

namespace Pattern

def one (p : Char → Bool) : Language Char :=
  {cs | ∃ c, p c = true ∧ cs = [c]}

def mark (c : Char) : Language Char := {[c]}

def perhaps (l : Language Char) : Language Char := 1 + l

def several (p : Char → Bool) : Language Char := one p * (one p)∗

variable {p : Char → Bool} {l m : Language Char} {c : Char} {cs : List Char}

lemma mem_mark : cs ∈ mark c ↔ cs = [c] := Iff.rfl

lemma mem_perhaps : cs ∈ perhaps l ↔ cs = [] ∨ cs ∈ l := Iff.rfl

lemma mem_mark_mul : cs ∈ mark c * l ↔ ∃ rest ∈ l, cs = c :: rest := by
  rw [Language.mem_mul]
  constructor
  · rintro ⟨_, rfl, rest, hrest, rfl⟩
    exact ⟨rest, hrest, rfl⟩
  · rintro ⟨rest, hrest, rfl⟩
    exact ⟨[c], rfl, rest, hrest, rfl⟩

lemma mem_star_one : cs ∈ (one p)∗ ↔ ∀ c ∈ cs, p c = true := by
  rw [Language.mem_kstar]
  constructor
  · rintro ⟨pieces, rfl, hpieces⟩ c hc
    obtain ⟨piece, hpiece, hc⟩ := mem_flatten.1 hc
    obtain ⟨d, hd, rfl⟩ := hpieces piece hpiece
    rwa [mem_singleton.1 hc]
  · intro h
    refine ⟨cs.map fun c => [c], by simp [← flatMap_def], fun piece hpiece => ?_⟩
    obtain ⟨c, hc, rfl⟩ := mem_map.1 hpiece
    exact ⟨c, h c hc, rfl⟩

lemma mem_several : cs ∈ several p ↔ cs ≠ [] ∧ ∀ c ∈ cs, p c = true := by
  rw [several, Language.mem_mul]
  constructor
  · rintro ⟨_, ⟨c, hc, rfl⟩, rest, hrest, rfl⟩
    refine ⟨nofun, forall_mem_cons.2 ⟨hc, mem_star_one.1 hrest⟩⟩
  · rintro ⟨hne, h⟩
    obtain ⟨c, rest, rfl⟩ := exists_cons_of_ne_nil hne
    obtain ⟨hc, hrest⟩ := forall_mem_cons.1 h
    exact ⟨[c], ⟨c, hc, rfl⟩, rest, mem_star_one.2 hrest, rfl⟩

def digits : Language Char := several Text.isDigit

/-- A part of a color: a fraction below one, or zero or one. -/
def component : Language Char :=
  perhaps (mark '0') * (mark '.' * digits) +
    (mark '0' + mark '1') * perhaps (mark '.' * (one (· == '0'))∗)

def magnitude : Language Char :=
  digits * perhaps (mark '.' * (one Text.isDigit)∗) + mark '.' * digits

def coordinate : Language Char := perhaps (mark '-') * magnitude

def sign : Language Char := mark '-' + mark '+'

def exponent : Language Char :=
  (mark 'e' + mark 'E') * (perhaps sign * digits)

def number : Language Char :=
  perhaps sign *
    ((digits * (perhaps (mark '.') * (one Text.isDigit)∗) + mark '.' * digits) * perhaps exponent)

lemma number_eq : number = perhaps sign * (magnitude * perhaps exponent) := by
  have hdigits : digits * (one Text.isDigit)∗ = digits := by
    rw [digits, several, mul_assoc, kstar_mul_kstar]
  have hpoint : digits * (perhaps (mark '.') * (one Text.isDigit)∗) =
      digits * perhaps (mark '.' * (one Text.isDigit)∗) := by
    rw [perhaps, perhaps, add_mul, one_mul, mul_add, mul_add, mul_one, hdigits]
  rw [number, magnitude, hpoint]

end Pattern

open Pattern

variable {cs front back : List Char}

lemma isDigits_iff : isDigits cs = true ↔ cs ∈ digits := by
  rw [digits, mem_several, isDigits]
  simp

lemma mem_component : cs ∈ component ↔
    (∃ fraction ∈ digits, cs = '.' :: fraction ∨ cs = '0' :: '.' :: fraction) ∨
      ∃ c, (c = '0' ∨ c = '1') ∧
        (cs = [c] ∨ ∃ zeros, (∀ d ∈ zeros, d = '0') ∧ cs = c :: '.' :: zeros) := by
  simp only [component, perhaps, add_mul, mul_add, one_mul, mul_one, Language.mem_add, mem_mark,
    mem_mark_mul, mem_star_one, beq_iff_eq]
  grind

lemma isComponent_iff : isComponent cs = true ↔ cs ∈ component := by
  rw [mem_component]
  constructor
  · intro h
    unfold isComponent at h
    split at h
    · next rest => exact .inl ⟨rest, isDigits_iff.1 h, .inl rfl⟩
    · next rest =>
      rcases Bool.or_eq_true_iff.1 h with hempty | hdigits
      · obtain rfl := isEmpty_iff.1 hempty
        exact .inr ⟨'0', .inl rfl, .inr ⟨[], nofun, rfl⟩⟩
      · exact .inl ⟨rest, isDigits_iff.1 hdigits, .inr rfl⟩
    · next rest => exact .inr ⟨'1', .inr rfl, .inr ⟨rest, by simpa using h, rfl⟩⟩
    · exact .inr ⟨'0', .inl rfl, .inl rfl⟩
    · exact .inr ⟨'1', .inr rfl, .inl rfl⟩
    · cases h
  · rintro (⟨fraction, hfraction, rfl | rfl⟩ | ⟨c, rfl | rfl, rfl | ⟨zeros, hzeros, rfl⟩⟩)
    · exact isDigits_iff.2 hfraction
    · exact Bool.or_eq_true_iff.2 (.inr (isDigits_iff.2 hfraction))
    · rfl
    · cases zeros with
      | nil => rfl
      | cons z zeros =>
        have hdigits : z :: zeros ∈ digits := mem_several.2 ⟨nofun, fun c hc => by
          rw [hzeros c hc]
          rfl⟩
        simp [isComponent, isDigits_iff.2 hdigits]
    · rfl
    · exact all_eq_true.2 fun c hc => beq_iff_eq.2 (hzeros c hc)

lemma spanDigits_append (hfront : ∀ c ∈ front, Text.isDigit c = true)
    (hback : ∀ c ∈ back.head?, Text.isDigit c = false) :
    spanDigits (front ++ back) = (front, back) := by
  have hdrop : back.takeWhile Text.isDigit = [] ∧ back.dropWhile Text.isDigit = back := by
    cases back with
    | nil => exact ⟨rfl, rfl⟩
    | cons c back =>
      have hc := hback c rfl
      simp [hc]
  rw [spanDigits, takeWhile_append_of_pos hfront, dropWhile_append_of_pos hfront, hdrop.1,
    hdrop.2, append_nil]

lemma head_point (rest : List Char) : ∀ c ∈ ('.' :: rest).head?, Text.isDigit c = false := by
  rintro c ⟨⟩
  rfl

lemma exists_spanDigits (cs : List Char) : ∃ front back, cs = front ++ back ∧
    spanDigits cs = (front, back) ∧ (∀ c ∈ front, Text.isDigit c = true) ∧
      (front ≠ [] → front ∈ digits) :=
  ⟨_, _, takeWhile_append_dropWhile.symm, rfl, fun _ => mem_takeWhile_imp,
    fun hne => mem_several.2 ⟨hne, fun _ => mem_takeWhile_imp⟩⟩

lemma mem_magnitude : cs ∈ magnitude ↔
    (∃ whole ∈ digits, cs = whole ∨
      ∃ fraction, (∀ c ∈ fraction, Text.isDigit c = true) ∧ cs = whole ++ '.' :: fraction) ∨
    ∃ fraction ∈ digits, cs = '.' :: fraction := by
  rw [magnitude, Language.mem_add, Language.mem_mul, mem_mark_mul]
  refine or_congr_left ⟨?_, ?_⟩
  · rintro ⟨whole, hwhole, rest, hrest, rfl⟩
    refine ⟨whole, hwhole, ?_⟩
    rcases mem_perhaps.1 hrest with rfl | hrest
    · exact .inl (append_nil whole)
    · obtain ⟨fraction, hfraction, rfl⟩ := mem_mark_mul.1 hrest
      exact .inr ⟨fraction, mem_star_one.1 hfraction, rfl⟩
  · rintro ⟨whole, hwhole, rfl | ⟨fraction, hfraction, rfl⟩⟩
    · exact ⟨cs, hwhole, [], mem_perhaps.2 (.inl rfl), append_nil cs⟩
    · have hpoint : '.' :: fraction ∈ mark '.' * (one Text.isDigit)∗ :=
        mem_mark_mul.2 ⟨fraction, mem_star_one.2 hfraction, rfl⟩
      exact ⟨whole, hwhole, _, mem_perhaps.2 (.inr hpoint), rfl⟩

def isMagnitude (cs : List Char) : Bool :=
  match spanDigits cs with
  | ([], '.' :: rest) => isDigits rest
  | ([], _) => false
  | (_, []) => true
  | (_, '.' :: rest) => rest.all Text.isDigit
  | _ => false

lemma isCoordinate_minus (cs : List Char) : isCoordinate ('-' :: cs) = isMagnitude cs := rfl

lemma isCoordinate_of_head (h : cs.head? ≠ some '-') : isCoordinate cs = isMagnitude cs := by
  unfold isCoordinate
  split
  · exact absurd rfl h
  · rfl

lemma isMagnitude_iff : isMagnitude cs = true ↔ cs ∈ magnitude := by
  rw [mem_magnitude]
  constructor
  · intro h
    obtain ⟨front, back, rfl, hspan, -, hdigits⟩ := exists_spanDigits cs
    unfold isMagnitude at h
    rw [hspan] at h
    split at h
    · next heq =>
      cases heq
      exact .inr ⟨_, isDigits_iff.1 h, rfl⟩
    · cases h
    · next hne heq =>
      cases heq
      exact .inl ⟨front, hdigits hne, .inl (append_nil front)⟩
    · next hne heq =>
      cases heq
      exact .inl ⟨front, hdigits hne, .inr ⟨_, all_eq_true.1 h, rfl⟩⟩
    · cases h
  · have hnone : ∀ c ∈ ([] : List Char).head?, Text.isDigit c = false := nofun
    rintro (⟨whole, hwhole, rfl | ⟨fraction, hfraction, rfl⟩⟩ | ⟨fraction, hfraction, rfl⟩)
    · obtain ⟨hne, hwhole⟩ := mem_several.1 hwhole
      obtain ⟨d, ds, rfl⟩ := exists_cons_of_ne_nil hne
      have hspan := spanDigits_append hwhole hnone
      rw [append_nil] at hspan
      rw [isMagnitude, hspan]
    · obtain ⟨hne, hwhole⟩ := mem_several.1 hwhole
      obtain ⟨d, ds, rfl⟩ := exists_cons_of_ne_nil hne
      rw [isMagnitude, spanDigits_append hwhole (head_point fraction)]
      exact all_eq_true.2 hfraction
    · have hspan : spanDigits ('.' :: fraction) = ([], '.' :: fraction) :=
        @spanDigits_append [] _ nofun (head_point fraction)
      rw [isMagnitude, hspan]
      exact isDigits_iff.2 hfraction

lemma head_of_mem_magnitude (h : cs ∈ magnitude) :
    ∃ c rest, cs = c :: rest ∧ (Text.isDigit c = true ∨ c = '.') := by
  rcases mem_magnitude.1 h with ⟨whole, hwhole, hcs⟩ | ⟨fraction, -, rfl⟩
  · obtain ⟨hne, hwhole⟩ := mem_several.1 hwhole
    obtain ⟨d, ds, rfl⟩ := exists_cons_of_ne_nil hne
    have hd := hwhole d mem_cons_self
    rcases hcs with rfl | ⟨fraction, -, rfl⟩
    · exact ⟨d, ds, rfl, .inl hd⟩
    · exact ⟨d, _, rfl, .inl hd⟩
  · exact ⟨'.', fraction, rfl, .inr rfl⟩

lemma chars_of_mem_magnitude (h : cs ∈ magnitude) :
    ∀ c ∈ cs, Text.isDigit c = true ∨ c = '.' := by
  rcases mem_magnitude.1 h with ⟨whole, hwhole, rfl | ⟨fraction, hfraction, rfl⟩⟩ |
    ⟨fraction, hfraction, rfl⟩
  · exact fun c hc => .inl ((mem_several.1 hwhole).2 c hc)
  · intro c hc
    rcases mem_append.1 hc with hc | hc
    · exact .inl ((mem_several.1 hwhole).2 c hc)
    · rcases mem_cons.1 hc with rfl | hc
      · exact .inr rfl
      · exact .inl (hfraction c hc)
  · exact forall_mem_cons.2 ⟨.inr rfl, fun c hc => .inl ((mem_several.1 hfraction).2 c hc)⟩

lemma mem_magnitude_of_component (h : cs ∈ component) : cs ∈ magnitude := by
  have hdigit : ∀ c, c = '0' ∨ c = '1' → [c] ∈ digits := by
    rintro c (rfl | rfl) <;> exact mem_several.2 ⟨nofun, forall_mem_singleton.2 rfl⟩
  rw [mem_magnitude]
  rcases mem_component.1 h with ⟨fraction, hfraction, rfl | rfl⟩ |
    ⟨c, hc, rfl | ⟨zeros, hzeros, rfl⟩⟩
  · exact .inr ⟨fraction, hfraction, rfl⟩
  · exact .inl ⟨_, hdigit '0' (.inl rfl), .inr ⟨fraction, (mem_several.1 hfraction).2, rfl⟩⟩
  · exact .inl ⟨_, hdigit c hc, .inl rfl⟩
  · refine .inl ⟨_, hdigit c hc, .inr ⟨zeros, fun d hd => ?_, rfl⟩⟩
    rw [hzeros d hd]
    rfl

lemma mem_coordinate :
    cs ∈ coordinate ↔ cs ∈ magnitude ∨ ∃ rest ∈ magnitude, cs = '-' :: rest := by
  rw [coordinate, perhaps, add_mul, one_mul, Language.mem_add, mem_mark_mul]

lemma isCoordinate_iff : isCoordinate cs = true ↔ cs ∈ coordinate := by
  rw [mem_coordinate]
  by_cases hhead : cs.head? = some '-'
  · obtain ⟨rest, rfl⟩ := List.head?_eq_some_iff.1 hhead
    rw [isCoordinate_minus, isMagnitude_iff]
    constructor
    · intro h
      exact .inr ⟨rest, h, rfl⟩
    · rintro (h | ⟨_, h, ⟨⟩⟩)
      · obtain ⟨c, _, ⟨⟩, hdigit | hpoint⟩ := head_of_mem_magnitude h
        · cases hdigit
        · cases hpoint
      · exact h
  · rw [isCoordinate_of_head hhead, isMagnitude_iff]
    constructor
    · exact .inl
    · rintro (h | ⟨rest, -, rfl⟩)
      · exact h
      · exact absurd rfl hhead

/-- The characters without a sign in front of them. -/
def unsigned : List Char → List Char
  | '+' :: cs => cs
  | '-' :: cs => cs
  | cs => cs

lemma unsigned_eq_self (h : ∀ c ∈ cs.head?, c ≠ '+' ∧ c ≠ '-') : unsigned cs = cs := by
  unfold unsigned
  split
  · exact absurd rfl (h _ rfl).1
  · exact absurd rfl (h _ rfl).2
  · rfl

lemma mem_signed_iff {l} (h : ∀ cs ∈ l, unsigned cs = cs) :
    cs ∈ perhaps sign * l ↔ unsigned cs ∈ l := by
  rw [perhaps, sign, add_mul, add_mul, one_mul, Language.mem_add, Language.mem_add, mem_mark_mul,
    mem_mark_mul]
  constructor
  · rintro (hcs | ⟨rest, hrest, rfl⟩ | ⟨rest, hrest, rfl⟩)
    · rwa [h cs hcs]
    · exact hrest
    · exact hrest
  · intro hcs
    unfold unsigned at hcs
    split at hcs
    · exact .inr (.inr ⟨_, hcs, rfl⟩)
    · exact .inr (.inl ⟨_, hcs, rfl⟩)
    · exact .inl hcs

lemma not_sign_of_isDigit {c} (h : Text.isDigit c = true ∨ c = '.') : c ≠ '+' ∧ c ≠ '-' := by
  constructor
  iterate 2
    · rintro rfl
      exact absurd h (by decide)

lemma unsigned_of_mem_digits (h : cs ∈ digits) : unsigned cs = cs :=
  unsigned_eq_self fun c hc =>
    not_sign_of_isDigit (.inl ((mem_several.1 h).2 c (mem_of_mem_head? hc)))

lemma isExponent_iff : isExponent cs = true ↔ cs ∈ perhaps exponent := by
  rw [mem_perhaps, exponent, add_mul, Language.mem_add, mem_mark_mul, mem_mark_mul]
  simp only [mem_signed_iff fun _ => unsigned_of_mem_digits]
  cases cs with
  | nil => simp [isExponent]
  | cons c cs =>
    have hsigned : isExponent (c :: cs) = ((c == 'e' || c == 'E') && isDigits (unsigned cs)) := by
      unfold isExponent
      dsimp only
      split
      · rfl
      · rfl
      · next hplus hminus => rw [unsigned.eq_3 _ hplus hminus]
    rw [hsigned, Bool.and_eq_true_iff, isDigits_iff]
    simp only [Bool.or_eq_true_iff, beq_iff_eq, List.cons.injEq]
    grind

lemma head_of_mem_exponent {l} (h : cs ∈ perhaps ((mark 'e' + mark 'E') * l)) :
    ∀ c ∈ cs.head?, c = 'e' ∨ c = 'E' := by
  rw [mem_perhaps, add_mul, Language.mem_add, mem_mark_mul, mem_mark_mul] at h
  rcases h with rfl | ⟨rest, -, rfl⟩ | ⟨rest, -, rfl⟩
  · exact nofun
  · rintro _ ⟨⟩
    exact .inl rfl
  · rintro _ ⟨⟩
    exact .inr rfl

lemma isUnsigned_iff : isUnsigned cs = true ↔ cs ∈ magnitude * perhaps exponent := by
  rw [Language.mem_mul]
  constructor
  · intro h
    obtain ⟨front, back, rfl, hspan, -, hdigits⟩ := exists_spanDigits cs
    unfold isUnsigned at h
    rw [hspan] at h
    split at h
    · next rest heq =>
      cases heq
      obtain ⟨fraction, last, rfl, hspan, -, hfraction⟩ := exists_spanDigits rest
      simp only [hspan, Bool.and_eq_true, Bool.not_eq_true', isEmpty_eq_false_iff] at h
      exact ⟨'.' :: fraction, mem_magnitude.2 (.inr ⟨_, hfraction h.1, rfl⟩),
        last, isExponent_iff.1 h.2, rfl⟩
    · cases h
    · next rest hne heq =>
      cases heq
      obtain ⟨fraction, last, rfl, hspan, hfraction, -⟩ := exists_spanDigits rest
      rw [hspan] at h
      exact ⟨front ++ '.' :: fraction,
        mem_magnitude.2 (.inl ⟨front, hdigits hne, .inr ⟨fraction, hfraction, rfl⟩⟩),
        last, isExponent_iff.1 h, by simp⟩
    · next hne _ heq =>
      cases heq
      exact ⟨front, mem_magnitude.2 (.inl ⟨front, hdigits hne, .inl rfl⟩), back,
        isExponent_iff.1 h, rfl⟩
  · rintro ⟨number, hnumber, last, hlast, rfl⟩
    have hnone : ∀ c ∈ last.head?, Text.isDigit c = false := by
      intro c hc
      rcases head_of_mem_exponent hlast c hc with rfl | rfl <;> rfl
    have hexponent := isExponent_iff.2 hlast
    rcases mem_magnitude.1 hnumber with ⟨whole, hwhole, rfl | ⟨fraction, hfraction, rfl⟩⟩ |
      ⟨fraction, hfraction, rfl⟩
    · obtain ⟨hne, hwhole⟩ := mem_several.1 hwhole
      obtain ⟨d, ds, rfl⟩ := exists_cons_of_ne_nil hne
      rw [isUnsigned, spanDigits_append hwhole hnone]
      cases last with
      | nil => exact hexponent
      | cons c last =>
        rcases head_of_mem_exponent hlast c rfl with rfl | rfl
        · exact hexponent
        · exact hexponent
    · obtain ⟨hne, hwhole⟩ := mem_several.1 hwhole
      obtain ⟨d, ds, rfl⟩ := exists_cons_of_ne_nil hne
      have hsplit : d :: ds ++ '.' :: fraction ++ last = d :: ds ++ '.' :: (fraction ++ last) := by
        simp
      rw [hsplit, isUnsigned, spanDigits_append hwhole (head_point _)]
      show isExponent (spanDigits (fraction ++ last)).2 = true
      rw [spanDigits_append hfraction hnone]
      exact hexponent
    · obtain ⟨hne, hfraction⟩ := mem_several.1 hfraction
      have hspan : spanDigits ('.' :: (fraction ++ last)) = ([], '.' :: (fraction ++ last)) :=
        @spanDigits_append [] _ nofun (head_point _)
      rw [cons_append, isUnsigned, hspan]
      show (!(spanDigits (fraction ++ last)).1.isEmpty &&
        isExponent (spanDigits (fraction ++ last)).2) = true
      rw [spanDigits_append hfraction hnone, hexponent]
      simpa using hne

lemma mem_number : cs ∈ number ↔ unsigned cs ∈ magnitude * perhaps exponent := by
  have hunsigned : ∀ cs ∈ magnitude * perhaps exponent, unsigned cs = cs := by
    rintro _ ⟨whole, hwhole, rest, -, rfl⟩
    obtain ⟨c, more, rfl, hc⟩ := head_of_mem_magnitude hwhole
    refine unsigned_eq_self fun d hd => ?_
    cases hd
    exact not_sign_of_isDigit hc
  rw [number_eq, mem_signed_iff hunsigned]

lemma isNumeric_iff {text} : isNumeric text = true ↔ text.toList ∈ number := by
  have hsigned : isNumeric text = isUnsigned (unsigned text.toList) := by
    unfold isNumeric
    generalize text.toList = cs
    split
    · rfl
    · rfl
    · next hplus hminus => rw [unsigned.eq_3 _ hplus hminus]
  rw [hsigned, isUnsigned_iff, mem_number]

end SceneView.Value
