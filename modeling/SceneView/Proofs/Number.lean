import Mathlib.Order.CompletePartialOrder
import SceneView.Proofs.Quoting
import SceneView.Proofs.Tuple

/-!
# Numbers in scripts

Literals write more numbers than scripts take. A script in strict mode takes Western digits only,
and no zero before another digit at the front. So a number that is left without quotes, and an
argument of a constructed value, is a number of the script if it is written in this way, and else it
is not.
-/

open List

namespace SceneView.Value

open scoped Computability
open Text Pattern

namespace Pattern

namespace Strict

def next : Language Char := perhaps (mark '_') * one Char.isDigit

def digits : Language Char := one Char.isDigit * next∗

def integer : Language Char :=
  mark '0' + one (fun c => c.isDigit && c != '0') * next∗

def exponent : Language Char :=
  (mark 'e' + mark 'E') * (perhaps sign * digits)

/-- The decimal literals of scripts in strict mode. -/
def decimal : Language Char :=
  (integer * perhaps (mark '.' * perhaps digits) + mark '.' * digits) * perhaps exponent

end Strict

section Characters

variable {p q : Char → Bool} {l m : Language Char} {c : Char}

lemma mul_le_star (hl : l ≤ (one p)∗) (hm : m ≤ (one p)∗) : l * m ≤ (one p)∗ :=
  (mul_le_mul' hl hm).trans_eq (kstar_mul_kstar _)

lemma star_le_star (h : l ≤ (one p)∗) : l∗ ≤ (one p)∗ :=
  (kstar_mono h).trans_eq (kstar_idem _)

lemma perhaps_le_star (h : l ≤ (one p)∗) : perhaps l ≤ (one p)∗ :=
  add_le one_le_kstar h

lemma one_le_star (h : ∀ c, q c = true → p c = true) : one q ≤ (one p)∗ := by
  rintro _ ⟨c, hc, rfl⟩
  exact mem_star_one.2 (forall_mem_singleton.2 (h c hc))

lemma mark_le_star (h : p c = true) : mark c ≤ (one p)∗ := by
  rintro _ rfl
  exact mem_star_one.2 (forall_mem_singleton.2 h)

end Characters

end Pattern

def isWestern (c : Char) : Bool :=
  c.toNat < 128

/-- Whether a zero stands before another digit at the front. -/
def isPadded : List Char → Bool
  | '0' :: c :: _ => isDigit c
  | _ => false

/-- Whether a number without its sign is written as scripts write it. -/
def isStrict (cs : List Char) : Bool :=
  cs.all isWestern && !isPadded cs

variable {cs front back : List Char} {c : Char}

lemma isDigit_western (h : isDigit c = true) (hwestern : isWestern c = true) :
    c.isDigit = true := by
  simp only [isDigit, isWestern, Bool.or_eq_true, Bool.and_eq_true, decide_eq_true_eq] at h hwestern
  rcases h with h | ⟨h, -⟩
  · exact h
  · omega

lemma isWestern_of_isDigit (h : c.isDigit = true) : isWestern c = true :=
  decide_eq_true (Script.toNat_lt_of_plain (Script.Phrase.plain_of_isDigit h))

lemma isPadded_of_ne (h : c ≠ '0') (cs : List Char) : isPadded (c :: cs) = false := by
  unfold isPadded
  split
  · next heq =>
    cases heq
    exact absurd rfl h
  · rfl

lemma isPadded_zero (h : ∀ c ∈ cs.head?, isDigit c = false) : isPadded ('0' :: cs) = false := by
  cases cs with
  | nil => rfl
  | cons c cs => exact h c rfl

lemma isPadded_of_append (h : isPadded (front ++ back) = false) : isPadded front = false := by
  match front with
  | [] => rfl
  | [c] =>
    unfold isPadded
    split
    · next heq => cases heq
    · rfl
  | c :: d :: front =>
    by_cases hc : c = '0'
    · subst hc
      exact h
    · exact isPadded_of_ne hc _

lemma western_of_mem_decimal (h : cs ∈ Strict.decimal) : ∀ c ∈ cs, isWestern c = true := by
  have hmark : ∀ {c}, isWestern c = true → mark c ≤ (one isWestern)∗ := mark_le_star
  have hone : one Char.isDigit ≤ (one isWestern)∗ := one_le_star fun _ => isWestern_of_isDigit
  have hnext : Strict.next∗ ≤ (one isWestern)∗ :=
    star_le_star (mul_le_star (perhaps_le_star (hmark rfl)) hone)
  have hdigits : Strict.digits ≤ (one isWestern)∗ := mul_le_star hone hnext
  have hinteger : Strict.integer ≤ (one isWestern)∗ := by
    refine add_le (hmark rfl) (mul_le_star (one_le_star fun c hc => ?_) hnext)
    exact isWestern_of_isDigit (Bool.and_eq_true_iff.1 hc).1
  have hexponent : Strict.exponent ≤ (one isWestern)∗ :=
    mul_le_star (add_le (hmark rfl) (hmark rfl))
      (mul_le_star (perhaps_le_star (add_le (hmark rfl) (hmark rfl))) hdigits)
  have hdecimal : Strict.decimal ≤ (one isWestern)∗ :=
    mul_le_star
      (add_le
        (mul_le_star hinteger
          (perhaps_le_star (mul_le_star (hmark rfl) (perhaps_le_star hdigits))))
        (mul_le_star (hmark rfl) hdigits))
      (perhaps_le_star hexponent)
  exact mem_star_one.1 (hdecimal h)

lemma head_of_mem_decimal (h : cs ∈ Strict.decimal) :
    ∃ c rest, cs = c :: rest ∧ (c = '.' ∨ isDigit c = true) ∧ isPadded cs = false := by
  obtain ⟨_, hnumber, last, hlast, rfl⟩ := h
  have hexponent : ∀ c ∈ last.head?, isDigit c = false := by
    intro c hc
    rcases head_of_mem_exponent hlast c hc with rfl | rfl <;> rfl
  rcases hnumber with ⟨_, hinteger, rest, hrest, rfl⟩ | hpoint
  · rcases hinteger with rfl | ⟨_, ⟨c, hc, rfl⟩, more, -, rfl⟩
    · refine ⟨'0', rest ++ last, rfl, .inr rfl, isPadded_zero ?_⟩
      rcases mem_perhaps.1 hrest with rfl | hrest
      · exact hexponent
      · obtain ⟨fraction, -, rfl⟩ := mem_mark_mul.1 hrest
        rintro _ ⟨⟩
        rfl
    · obtain ⟨hdigit, hzero⟩ := Bool.and_eq_true_iff.1 hc
      exact ⟨c, _, rfl, .inr (isDigit_of_ascii hdigit), isPadded_of_ne (by simpa using hzero) _⟩
  · obtain ⟨fraction, -, rfl⟩ := mem_mark_mul.1 hpoint
    exact ⟨'.', fraction ++ last, rfl, .inl rfl, rfl⟩

lemma mem_star_next (h : ∀ c ∈ cs, c.isDigit = true) : cs ∈ Strict.next∗ := by
  have hnext : one Char.isDigit ≤ Strict.next :=
    le_mul_of_one_le_left' (le_add_right le_rfl)
  exact kstar_mono hnext (mem_star_one.2 h)

section Western

variable (hwestern : ∀ c ∈ cs, isWestern c = true)
include hwestern

lemma cons_of_mem_digits (h : cs ∈ digits) :
    ∃ c rest, cs = c :: rest ∧ c.isDigit = true ∧ rest ∈ Strict.next∗ := by
  obtain ⟨hne, hdigits⟩ := mem_several.1 h
  obtain ⟨c, rest, rfl⟩ := exists_cons_of_ne_nil hne
  have hstrict : ∀ d ∈ c :: rest, d.isDigit = true := fun d hd =>
    isDigit_western (hdigits d hd) (hwestern d hd)
  obtain ⟨hc, hrest⟩ := forall_mem_cons.1 hstrict
  exact ⟨c, rest, rfl, hc, mem_star_next hrest⟩

lemma mem_strict_digits (h : cs ∈ digits) : cs ∈ Strict.digits := by
  obtain ⟨c, rest, rfl, hc, hrest⟩ := cons_of_mem_digits hwestern h
  exact ⟨[c], ⟨c, hc, rfl⟩, rest, hrest, rfl⟩

lemma mem_strict_integer (h : cs ∈ digits) (hpadded : isPadded cs = false) :
    cs ∈ Strict.integer := by
  obtain ⟨c, rest, rfl, hc, hrest⟩ := cons_of_mem_digits hwestern h
  by_cases hzero : c = '0'
  · subst hzero
    cases rest with
    | nil => exact .inl rfl
    | cons d rest =>
      have hd : isDigit d = true := (mem_several.1 h).2 d (by simp)
      exact absurd (hpadded.symm.trans hd) (by decide)
  · exact .inr ⟨[c], ⟨c, by simp [hc, hzero], rfl⟩, rest, hrest, rfl⟩

lemma mem_strict_exponent (h : cs ∈ perhaps exponent) : cs ∈ perhaps Strict.exponent := by
  rcases mem_perhaps.1 h with rfl | ⟨letter, hletter, _, ⟨mark, hmark, ds, hdigits, rfl⟩, rfl⟩
  · exact .inl rfl
  · refine .inr ⟨letter, hletter, _, ⟨mark, hmark, ds, mem_strict_digits ?_ hdigits, rfl⟩, rfl⟩
    exact fun c hc => hwestern c (by simp [hc])

lemma mem_strict_decimal (h : cs ∈ magnitude * perhaps exponent) (hpadded : isPadded cs = false) :
    cs ∈ Strict.decimal := by
  obtain ⟨number, hnumber, last, hlast, rfl⟩ := h
  have hexponent : last ∈ perhaps Strict.exponent :=
    mem_strict_exponent (fun c hc => hwestern c (mem_append_right _ hc)) hlast
  refine ⟨number, ?_, last, hexponent, rfl⟩
  replace hpadded := isPadded_of_append hpadded
  replace hwestern : ∀ c ∈ number, isWestern c = true :=
    fun c hc => hwestern c (mem_append_left _ hc)
  rcases mem_magnitude.1 hnumber with ⟨whole, hwhole, rfl | ⟨fraction, hfraction, rfl⟩⟩ |
    ⟨fraction, hfraction, rfl⟩
  · exact .inl ⟨number, mem_strict_integer hwestern hwhole hpadded, [], .inl rfl, by simp⟩
  · refine .inl ⟨whole, mem_strict_integer (fun c hc => hwestern c (by simp [hc])) hwhole
      (isPadded_of_append hpadded), '.' :: fraction, .inr (mem_mark_mul.2 ⟨fraction, ?_, rfl⟩), rfl⟩
    cases fraction with
    | nil => exact .inl rfl
    | cons c fraction =>
      refine .inr (mem_strict_digits (fun c hc => ?_) (mem_several.2 ⟨nofun, hfraction⟩))
      exact hwestern c (by simp [hc])
  · refine .inr (mem_mark_mul.2 ⟨fraction, mem_strict_digits (fun c hc => ?_) hfraction, rfl⟩)
    exact hwestern c (mem_cons_of_mem _ hc)

end Western

lemma mem_decimal_iff (h : cs ∈ magnitude * perhaps exponent) :
    cs ∈ Strict.decimal ↔ isStrict cs = true := by
  rw [isStrict, Bool.and_eq_true, all_eq_true, Bool.not_eq_true']
  constructor
  · intro hdecimal
    obtain ⟨-, -, -, -, hpadded⟩ := head_of_mem_decimal hdecimal
    exact ⟨western_of_mem_decimal hdecimal, hpadded⟩
  · rintro ⟨hwestern, hpadded⟩
    exact mem_strict_decimal hwestern h hpadded

lemma unsigned_of_mem_decimal (h : cs ∈ Strict.decimal) : unsigned cs = cs := by
  obtain ⟨c, rest, rfl, hc, -⟩ := head_of_mem_decimal h
  refine unsigned_eq_self fun d hd => ?_
  cases hd
  exact not_sign_of_isDigit hc.symm

lemma mem_magnitude_mul (h : cs ∈ magnitude) : cs ∈ magnitude * perhaps exponent :=
  ⟨cs, h, [], .inl rfl, append_nil cs⟩

namespace Primitive

variable {p : Primitive}

lemma part_mem_decimal_iff (h : cs ∈ p.part) :
    cs ∈ perhaps (mark '-') * Strict.decimal ↔ isStrict (unsigned cs) = true := by
  rw [perhaps, add_mul, one_mul, Language.mem_add, mem_mark_mul]
  rcases mem_part h with hcs | ⟨rest, hrest, rfl⟩
  · obtain ⟨c, rest, rfl, hc⟩ := head_of_mem_magnitude hcs
    have hsign := not_sign_of_isDigit hc
    rw [unsigned_eq_self (by rintro _ ⟨⟩; exact hsign), ← mem_decimal_iff (mem_magnitude_mul hcs)]
    constructor
    · rintro (hdecimal | ⟨_, -, ⟨⟩⟩)
      · exact hdecimal
      · exact absurd rfl hsign.2
    · exact .inl
  · rw [unsigned, ← mem_decimal_iff (mem_magnitude_mul hrest)]
    constructor
    · rintro (hdecimal | ⟨_, hdecimal, ⟨⟩⟩)
      · exact absurd (unsigned_of_mem_decimal hdecimal) (by simp [unsigned])
      · exact hdecimal
    · exact fun hdecimal => .inr ⟨rest, hdecimal, rfl⟩

lemma component_mem_decimal_iff (h : cs ∈ component) :
    cs ∈ Strict.decimal ↔ ∀ c ∈ cs, isWestern c = true := by
  have hpadded : isPadded cs = false := by
    rcases mem_component.1 h with
      ⟨fraction, -, rfl | rfl⟩ | ⟨c, rfl | rfl, rfl | ⟨zeros, -, rfl⟩⟩ <;> rfl
  rw [mem_decimal_iff (mem_magnitude_mul (mem_magnitude_of_component h)), isStrict, hpadded,
    Bool.not_false, Bool.and_true, all_eq_true]

end Primitive

lemma chars_of_mem_number (h : cs ∈ number) : ∀ c ∈ cs, (c != ',' && c != '#') = true := by
  let p : Char → Bool := fun c => c != ',' && c != '#'
  have hmark : ∀ {c}, p c = true → mark c ≤ (one p)∗ := mark_le_star
  have hdigit : ∀ c, isDigit c = true → p c = true := by
    intro c hc
    rw [Bool.and_eq_true, bne_iff_ne, bne_iff_ne]
    constructor <;> rintro rfl <;> cases hc
  have hone : one isDigit ≤ (one p)∗ := one_le_star hdigit
  have hdigits : digits ≤ (one p)∗ := mul_le_star hone (star_le_star hone)
  have hsign : perhaps sign ≤ (one p)∗ := perhaps_le_star (add_le (hmark rfl) (hmark rfl))
  have hexponent : exponent ≤ (one p)∗ :=
    mul_le_star (add_le (hmark rfl) (hmark rfl)) (mul_le_star hsign hdigits)
  have hnumber : number ≤ (one p)∗ :=
    mul_le_star hsign
      (mul_le_star
        (add_le
          (mul_le_star hdigits (mul_le_star (perhaps_le_star (hmark rfl)) (star_le_star hone)))
          (mul_le_star (hmark rfl) hdigits))
        (perhaps_le_star hexponent))
  exact mem_star_one.1 (hnumber h)

lemma accepts_of_mem_number {text} (h : text.toList ∈ number) (p : Primitive) :
    p.accepts text = false := by
  have hchars := chars_of_mem_number h
  have hhash : text.toList.head? ≠ some '#' := fun hhead =>
    absurd (hchars _ (mem_of_mem_head? hhead)) (by decide)
  have hcomma : ',' ∉ text.toList := fun hmem => absurd (hchars _ hmem) (by decide)
  rw [Primitive.accepts_eq_isTuple hhash, Primitive.isTuple, Primitive.parts,
    splitAt_of_not_mem hcomma]
  cases p <;> rfl

lemma length_le_escape (cs : List Char) : cs.length ≤ (escape cs).length := by
  induction cs with
  | nil => exact le_rfl
  | cons c cs ih =>
    rw [escape]
    split <;> simp only [length_cons] <;> omega

lemma quote_ne_self (s : String) : quote s ≠ s := by
  intro h
  have hlength := congrArg (fun t : String => t.toList.length) h
  have hescape := length_le_escape s.toList
  simp only [toList_quote, length_cons, length_append, length_nil] at hlength
  omega

lemma construct_ne_self {p : Primitive} {text} (htrim : trim text = text)
    (h : p.accepts text = true) : p.construct text ≠ text := by
  intro heq
  have hhead := congrArg (fun t : String => t.toList.head?) heq
  by_cases hhash : text.toList.head? = some '#'
  · rw [Primitive.construct, if_pos hhash] at hhead
    cases p <;> simp [Primitive.typeName, hhash] at hhead
  · rw [Primitive.construct, if_neg hhash] at hhead
    rw [Primitive.accepts_eq_isTuple hhash, Primitive.isTuple_iff htrim] at h
    obtain ⟨c, rest, htext, hc⟩ := Primitive.head_of_mem_tuple h
    obtain rfl : 'n' = c := by simpa [htext] using hhead
    exact absurd hc (by decide)

/-- A literal is left without quotes just if it writes a number, and is then a number of the script
just if it is written as such; so are the arguments of a constructed value. -/
theorem bare_number_decimal_iff (raw : String) :
    (∀ (b : Binder) (name target : String) (options : Options), inner? raw = none →
      options.quoteIfNeeded = true → ∃ t, b.translate name raw target options = .ok t ∧
        (t.value = trim raw ↔ (trim raw).toList ∈ number) ∧
        (t.value = trim raw → (t.value.toList ∈ perhaps sign * Strict.decimal ↔
          isStrict (unsigned t.value.toList) = true))) ∧
    ∀ p : Primitive, (trim raw).toList ∈ p.tuple →
      ∃ args, p.construct (trim raw) = p.call args ∧ args.length = p.arity ∧ ∀ a ∈ args,
        (a ∈ perhaps (mark '-') * Strict.decimal ↔ isStrict (unsigned a) = true) ∧
        (p ≠ .vector3 → (a ∈ Strict.decimal ↔ ∀ c ∈ a, isWestern c = true)) := by
  constructor
  · intro b name target options hliteral hquote
    rw [b.translate_of_literal hliteral]
    cases hprimitive : options.primitive? (trim raw) with
    | some p =>
      have haccepts := options.accepts_of_primitive? hprimitive
      have hne := construct_ne_self (trim_trim raw) haccepts
      refine ⟨_, rfl, ?_⟩
      dsimp only
      refine ⟨iff_of_false hne fun hnumber => ?_, fun h => absurd h hne⟩
      exact absurd ((accepts_of_mem_number hnumber p).symm.trans haccepts) (by decide)
    | none =>
      refine ⟨_, rfl, ?_⟩
      simp only [hquote, Bool.true_and, ← isNumeric_iff]
      cases hnumeric : isNumeric (trim raw) with
      | false => simp [quote_ne_self]
      | true =>
        have hnumber := mem_number.1 (isNumeric_iff.1 hnumeric)
        simp only [Bool.not_true, Bool.false_eq_true, if_false, iff_self, true_and, forall_const]
        rw [mem_signed_iff fun _ => unsigned_of_mem_decimal, mem_decimal_iff hnumber]
  · intro p h
    obtain ⟨hlength, hpart, -⟩ := Primitive.pieces_of_mem_tuple h
    refine ⟨pieces raw.toList, p.construct_trim (p.head_ne_of_mem_tuple h).1, hlength,
      fun a ha => ⟨p.part_mem_decimal_iff (hpart a ha), fun hp => ?_⟩⟩
    cases p with
    | color3 | color4 => exact Primitive.component_mem_decimal_iff (hpart a ha)
    | vector3 => exact absurd rfl hp

/-- A number with a sign and an exponent, and a color with a point at each place. -/
theorem signed_fraction_decimal :
    inner? " -0.5e3" = none ∧ isStrict (unsigned "-0.5e3".toList) = true ∧
    (Binder.translate ⟨"_host", "_engine"⟩ "text" " -0.5e3" "x" { quoteIfNeeded := true }).map
      (·.value) = .ok "-0.5e3" ∧
    "-0.5e3".toList ∈ perhaps sign * Strict.decimal ∧
    (trim ".5,0.5,1.").toList ∈ Primitive.color3.tuple ∧
    ∃ args, Primitive.color3.construct (trim ".5,0.5,1.") = Primitive.color3.call args ∧
      ∀ a ∈ args, a ∈ Strict.decimal ↔ ∀ c ∈ a, isWestern c = true := by
  have hliteral : inner? " -0.5e3" = none := by decide +kernel
  have hstrict : isStrict (unsigned "-0.5e3".toList) = true := by decide +kernel
  have htuple : (trim ".5,0.5,1.").toList ∈ Primitive.color3.tuple :=
    (Primitive.isTuple_iff (trim_trim _)).1 (by decide +kernel)
  have hvalue : (Binder.translate ⟨"_host", "_engine"⟩ "text" " -0.5e3" "x"
      { quoteIfNeeded := true }).map (·.value) = .ok "-0.5e3" := by decide +kernel
  obtain ⟨t, htranslate, -, hdecimal⟩ := (bare_number_decimal_iff " -0.5e3").1
    ⟨"_host", "_engine"⟩ "text" "x" { quoteIfNeeded := true } hliteral rfl
  obtain ⟨args, hconstruct, -, hargs⟩ := (bare_number_decimal_iff ".5,0.5,1.").2 .color3 htuple
  have heq : t.value = "-0.5e3" := by
    rw [htranslate] at hvalue
    exact Except.ok.inj hvalue
  rw [heq] at hdecimal
  exact ⟨hliteral, hstrict, hvalue, (hdecimal (by decide +kernel)).2 hstrict, htuple,
    args, hconstruct, fun a ha => (hargs a ha).2 nofun⟩

/-- Zeros in front and digits of other scripts are left without quotes, and are put into vectors. -/
theorem padded_number_unquoted :
    (Binder.translate ⟨"_host", "_engine"⟩ "text" "007" "x" { quoteIfNeeded := true }).map
      (·.value) = .ok "007" ∧
    (Binder.translate ⟨"_host", "_engine"⟩ "text" "٣" "x" { quoteIfNeeded := true }).map
      (·.value) = .ok "٣" ∧
    Primitive.vector3.construct "007,0,٣" = "new Vector3(007, 0, ٣)" ∧
    ∀ text ∈ ["007", "٣"], text.toList ∉ perhaps sign * Strict.decimal := by
  refine ⟨by decide +kernel, by decide +kernel, by decide +kernel, fun text htext hdecimal => ?_⟩
  have hloose : ∀ text ∈ ["007", "٣"],
      isNumeric text = true ∧ isStrict (unsigned text.toList) = false := by decide +kernel
  obtain ⟨hnumeric, hstrict⟩ := hloose text htext
  rw [mem_signed_iff fun _ => unsigned_of_mem_decimal,
    mem_decimal_iff (mem_number.1 (isNumeric_iff.1 hnumeric)), hstrict] at hdecimal
  cases hdecimal

end SceneView.Value
