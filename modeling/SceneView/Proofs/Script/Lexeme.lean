import SceneView.Proofs.Script.Position

/-!
# Tokens of plain texts

What the scanners make of the tokens that a text is written with: words of plain letters, numbers of
plain digits, strings without escapes, marks, and single spaces between them.
-/

open List

namespace SceneView.Script

open Cursor

namespace Cursor

def scan (total : Nat) (cs : List Char) : Cursor :=
  next ⟨total, ⟨.finish, 0, "", false, false⟩, cs, false⟩

lemma next_eq_scan {c : Cursor} (h : c.flawed = false) : c.next = scan c.total c.rest := by
  simp only [scan, Cursor.next, h]

def atToken (total start : Nat) (kind : Kind) (text : String) (left : List Char) : Cursor :=
  ⟨total, ⟨kind, start, text, false, false⟩, left, false⟩

@[simp]
lemma next_atToken (total start : Nat) (kind : Kind) (text : String) (left : List Char) :
    (atToken total start kind text left).next = scan total left :=
  next_eq_scan rfl

end Cursor

/-- Whether the character begins a token wherever it is met. -/
def isSolid (c : Char) : Bool :=
  !isLineBreak c && !isSpace c && c != '/'

variable {c : Char} {cs : List Char}

lemma skipGap_solid (h : isSolid c = true) (newline : Bool) (cs : List Char) :
    skipGap .plain newline (c :: cs) = (c :: cs, newline, true) := by
  simp only [isSolid, Bool.and_eq_true, Bool.not_eq_true', bne_iff_ne] at h
  obtain ⟨⟨hbreak, hspace⟩, hslash⟩ := h
  rw [skipGap.eq_3]
  · rw [hbreak, hspace]
    rfl
  · rintro ds rfl -
    exact hslash rfl
  · rintro ds rfl -
    exact hslash rfl

lemma scan_space (total : Nat) (cs : List Char) :
    scan total (' ' :: cs) = scan total cs := rfl

lemma scan_token {total left kind text}
    (hgap : skipGap .plain false (c :: cs) = (c :: cs, false, true))
    (hread : readToken (c :: cs) = (kind, text, false, left)) (hkind : kind ≠ .malformed) :
    scan total (c :: cs) = .atToken total (total - (c :: cs).length) kind text left := by
  have hflaw : (kind == .malformed) = false := beq_eq_false_iff_ne.2 hkind
  simp only [scan, Cursor.next, hgap, hread, atToken, hflaw,
    Bool.not_true, Bool.or_self]

/-- A word of plain letters, digits, dollar signs and underscores. -/
structure Word where
  first : Char
  others : List Char
  begins : (first.isAlpha || first == '$' || first == '_') = true
  continues : (others.all fun c => c.isAlphanum || c == '$' || c == '_') = true

namespace Word

def chars (w : Word) : List Char := w.first :: w.others

def spelling (w : Word) : String := String.ofList w.chars

def kind (w : Word) : Kind :=
  match Keyword.ofSpelling? w.spelling with
  | some k => .keyword k
  | none => .name

end Word

lemma forall_mem_of_all {p} [DecidablePred p] (h : cs.all (fun c => decide (p c)) = true) :
    ∀ c ∈ cs, p c :=
  fun c hc => of_decide_eq_true (all_eq_true.1 h c hc)

def endsWord : List Char → Bool
  | [] => true
  | c :: _ => " .![()],;:\x7d".toList.contains c

lemma not_part_of_endsWord (h : endsWord (c :: cs) = true) :
    Text.isIdentifierPart c = false ∧ c ≠ '\\' := by
  have hmem : c ∈ " .![()],;:\x7d".toList := contains_iff_mem.1 h
  have hall : ∀ c ∈ " .![()],;:\x7d".toList, Text.isIdentifierPart c = false ∧ c ≠ '\\' :=
    forall_mem_of_all (by decide)
  exact hall c hmem

lemma isIdentifierPart_of_plain (h : (c.isAlphanum || c == '$' || c == '_') = true) :
    Text.isIdentifierPart c = true := by
  rw [Text.isIdentifierPart, h, Bool.true_or]

lemma isIdentifierStart_of_plain (h : (c.isAlpha || c == '$' || c == '_') = true) :
    Text.isIdentifierStart c = true := by
  rw [Text.isIdentifierStart, h, Bool.true_or]

lemma ascii_cases {p : Char → Prop} (h : ∀ n < 128, p (Char.ofNat n)) (hc : c.toNat < 128) :
    p c := by
  have hofNat := h c.toNat hc
  rwa [Char.ofNat_toNat] at hofNat

lemma toNat_lt_of_isAlphanum (h : c.isAlphanum = true) : c.toNat < 128 := by
  delta Char.isAlphanum Char.isAlpha Char.isUpper Char.isLower Char.isDigit at h
  simp only [Bool.or_eq_true, Bool.and_eq_true, decide_eq_true_eq, UInt32.le_iff_toNat_le,
    ge_iff_le] at h
  have hupper : 'Z'.val.toNat = 90 := rfl
  have hlower : 'z'.val.toNat = 122 := rfl
  have hdigit : '9'.val.toNat = 57 := rfl
  have hval : c.toNat = c.val.toNat := rfl
  omega

lemma toNat_lt_of_plain (h : (c.isAlphanum || c == '$' || c == '_') = true) :
    c.toNat < 128 := by
  simp only [Bool.or_eq_true, beq_iff_eq] at h
  obtain (h | rfl) | rfl := h
  · exact toNat_lt_of_isAlphanum h
  · decide
  · decide

lemma plain_ne_backslash (h : (c.isAlphanum || c == '$' || c == '_') = true) :
    c ≠ '\\' := by
  rintro rfl
  cases h

lemma readWord_plain {fuel word} (hword : ∀ c ∈ word, (c.isAlphanum || c == '$' || c == '_') = true)
    (hends : endsWord cs = true) (hfuel : word.length ≤ fuel) :
    readWord fuel (word ++ cs) = (word, false, true, cs) := by
  induction word generalizing fuel with
  | nil =>
    cases fuel with
    | zero => rfl
    | succ fuel =>
      cases cs with
      | nil => rfl
      | cons c cs =>
        obtain ⟨hpart, hslash⟩ := not_part_of_endsWord hends
        rw [nil_append, readWord.eq_3]
        · rw [hpart, beq_eq_false_iff_ne.2 hslash]
          rfl
        · rintro ds rfl -
          exact hslash rfl
  | cons c word ih =>
    cases fuel with
    | zero => cases hfuel
    | succ fuel =>
      have hc := hword c mem_cons_self
      rw [cons_append, readWord.eq_3]
      · rw [isIdentifierPart_of_plain hc, ih (fun d hd => hword d (mem_cons_of_mem _ hd))
          (Nat.le_of_succ_le_succ hfuel)]
        rfl
      · rintro ds rfl -
        exact plain_ne_backslash hc rfl

lemma Word.plain_first (w : Word) :
    (w.first.isAlphanum || w.first == '$' || w.first == '_') = true := by
  have hbegins := w.begins
  simp only [Char.isAlphanum, Bool.or_eq_true] at hbegins ⊢
  tauto

lemma Word.plain_chars (w : Word) :
    ∀ c ∈ w.chars, (c.isAlphanum || c == '$' || c == '_') = true := by
  intro c hc
  obtain rfl | hc := mem_cons.1 hc
  · exact w.plain_first
  · exact all_eq_true.1 w.continues c hc

lemma Word.readName_chars (w : Word) (h : endsWord cs = true) :
    readName (w.chars ++ cs) = (w.kind, w.spelling, false, cs) := by
  have hread : readWord (w.chars ++ cs).length (w.chars ++ cs) = (w.chars, false, true, cs) :=
    readWord_plain w.plain_chars h (by simp)
  have hstarts : startsName w.chars = true := isIdentifierStart_of_plain w.begins
  rw [readName, hread]
  simp only [hstarts, Bool.and_self, if_true]
  show (match Keyword.ofSpelling? w.spelling with
    | some k => (Kind.keyword k, w.spelling, false, cs)
    | none => (Kind.name, w.spelling, false, cs)) = _
  unfold Word.kind
  cases Keyword.ofSpelling? w.spelling <;> rfl

lemma scan_word (total : Nat) (w : Word) (h : endsWord cs = true) :
    scan total (w.chars ++ cs) =
      .atToken total (total - (w.chars ++ cs).length) w.kind w.spelling cs := by
  have hstart := isIdentifierStart_of_plain w.begins
  have hfacts : isSolid w.first = true ∧ w.first ≠ '#' := by
    exact ascii_cases (p := fun c => (c.isAlphanum || c == '$' || c == '_') = true →
      isSolid c = true ∧ c ≠ '#') (by decide) (toNat_lt_of_plain w.plain_first) w.plain_first
  have hread : readToken (w.chars ++ cs) = (w.kind, w.spelling, false, cs) := by
    rw [← w.readName_chars h]
    show readToken (w.first :: (w.others ++ cs)) = readName (w.first :: (w.others ++ cs))
    unfold readToken
    split
    · next heq => cases heq
    · next heq => exact absurd (List.cons.inj heq).1 hfacts.2
    · next heq =>
      cases heq
      rw [hstart]
      rfl
  refine scan_token (skipGap_solid hfacts.1 _ _) hread ?_
  unfold Word.kind
  split <;> nofun

/-- The text of a string that needs no escapes. -/
structure PlainText where
  chars : List Char
  plain : (chars.all fun c => c != '\'' && c != '\\' && c != '\n' && c != '\r') = true

lemma readString_plain {fuel content}
    (h : ∀ c ∈ content, (c != '\'' && c != '\\' && c != '\n' && c != '\r') = true)
    (hfuel : content.length < fuel) :
    readString '\'' fuel true (content ++ '\'' :: cs) = (.string, cs) := by
  induction content generalizing fuel with
  | nil =>
    cases fuel with
    | zero => cases hfuel
    | succ fuel => rfl
  | cons c content ih =>
    cases fuel with
    | zero => cases hfuel
    | succ fuel =>
      have hc := h c mem_cons_self
      simp only [Bool.and_eq_true, bne_iff_ne] at hc
      obtain ⟨⟨⟨hquote, hslash⟩, hline⟩, hreturn⟩ := hc
      have hrest := ih (fun d hd => h d (mem_cons_of_mem _ hd)) (Nat.lt_of_succ_lt_succ hfuel)
      simp [readString, hquote, hline, hreturn, hrest]

lemma scan_plainText (total : Nat) (t : PlainText) (cs : List Char) :
    scan total ('\'' :: (t.chars ++ '\'' :: cs)) =
      .atToken total (total - ('\'' :: (t.chars ++ '\'' :: cs)).length) .string "" cs := by
  have hread : readToken ('\'' :: (t.chars ++ '\'' :: cs)) = (.string, "", false, cs) := by
    have hstart : Text.isIdentifierStart '\'' = false := rfl
    have hstring : readString '\'' (t.chars.length + (cs.length + 1) + 1) true
        (t.chars ++ '\'' :: cs) = (.string, cs) :=
      readString_plain (all_eq_true.1 t.plain) (by omega)
    simp [readToken, hstart, hstring]
  exact scan_token rfl hread nofun

/-- A whole number without needless zeros. -/
structure Numeral where
  first : Char
  others : List Char
  digits : (first :: others).all Char.isDigit = true
  short : (first != '0' || others.isEmpty) = true

def Numeral.chars (n : Numeral) : List Char := n.first :: n.others

def endsOperand : List Char → Bool
  | [] => true
  | c :: _ => " )],;:\x7d".toList.contains c

lemma endsWord_of_endsOperand (h : endsOperand cs = true) : endsWord cs = true := by
  cases cs with
  | nil => rfl
  | cons c cs =>
    have hall : ∀ c ∈ " )],;:\x7d".toList, " .![()],;:\x7d".toList.contains c = true :=
      forall_mem_of_all (by decide)
    exact hall c (contains_iff_mem.1 h)

lemma readDigits_plain {digits} (hdigits : ∀ c ∈ digits, c.isDigit = true)
    (h : endsOperand cs = true) : readDigits Char.isDigit (digits ++ cs) = (true, cs) := by
  induction digits with
  | nil =>
    cases cs with
    | nil => rfl
    | cons c cs =>
      have hall : ∀ c ∈ " )],;:\x7d".toList, c.isDigit = false ∧ c ≠ '_' :=
        forall_mem_of_all (by decide)
      obtain ⟨hdigit, hline⟩ := hall c (contains_iff_mem.1 h)
      simp [readDigits, hdigit, hline]
  | cons c digits ih =>
    have hc := hdigits c mem_cons_self
    have hline : c ≠ '_' := by
      rintro rfl
      cases hc
    have hrest := ih fun d hd => hdigits d (mem_cons_of_mem _ hd)
    simp [readDigits, hc, hline, hrest]

lemma readDecimalRest_plain (h : endsOperand cs = true) :
    readDecimalRest true cs = (.number, cs) := by
  cases cs with
  | nil => rfl
  | cons c cs =>
    have hall : ∀ c ∈ " )],;:\x7d".toList, c ≠ '.' ∧ c ≠ 'n' ∧ c ≠ 'e' ∧ c ≠ 'E' ∧
        c.isDigit = false ∧ Text.isIdentifierStart c = false :=
      forall_mem_of_all (by decide)
    obtain ⟨hdot, hbig, hlower, hupper, hdigit, hstart⟩ := hall c (contains_iff_mem.1 h)
    simp [readDecimalRest, readExponent, endNumber, hdot, hbig, hlower, hupper, hdigit, hstart]

lemma Numeral.readNumber_eq (n : Numeral) (h : endsOperand cs = true) :
    readNumber n.first (n.others ++ cs) = (.number, cs) := by
  have hdigits := all_eq_true.1 n.digits
  have hshort := n.short
  by_cases hzero : n.first = '0'
  · have hothers : n.others = [] := by simpa [hzero] using hshort
    rw [hothers, nil_append, hzero]
    cases cs with
    | nil => rfl
    | cons c cs =>
      have hall : ∀ c ∈ " )],;:\x7d".toList, c ≠ 'x' ∧ c ≠ 'X' ∧ c ≠ 'o' ∧ c ≠ 'O' ∧ c ≠ 'b' ∧
          c ≠ 'B' ∧ c ≠ '_' ∧ c.isDigit = false :=
        forall_mem_of_all (by decide)
      obtain ⟨hx, hX, ho, hO, hb, hB, hline, hdigit⟩ := hall c (contains_iff_mem.1 h)
      simp [readNumber, hx, hX, ho, hO, hb, hB, hline, hdigit, readDecimalRest_plain h]
  · have hread := readDigits_plain (fun d hd => hdigits d (mem_cons_of_mem _ hd)) h
    simp [readNumber, hzero, hread, readDecimalRest_plain h]

lemma scan_numeral (total : Nat) (n : Numeral) (h : endsOperand cs = true) :
    scan total (n.chars ++ cs) =
      .atToken total (total - (n.chars ++ cs).length) .number "" cs := by
  have hfirst : n.first.isDigit = true := all_eq_true.1 n.digits _ mem_cons_self
  have hplain : n.first.isAlphanum = true := by rw [Char.isAlphanum, hfirst, Bool.or_true]
  have hfacts : isSolid n.first = true ∧ n.first ≠ '#' ∧ n.first ≠ '.' ∧ n.first ≠ '\\' ∧
      Text.isIdentifierStart n.first = false :=
    ascii_cases (p := fun c => c.isDigit = true → isSolid c = true ∧ c ≠ '#' ∧ c ≠ '.' ∧
      c ≠ '\\' ∧ Text.isIdentifierStart c = false) (by decide) (toNat_lt_of_isAlphanum hplain) hfirst
  obtain ⟨hsolid, hhash, hdot, hslash, hstart⟩ := hfacts
  have hread : readToken (n.first :: (n.others ++ cs)) = (.number, "", false, cs) := by
    simp [readToken, hslash, hstart, hfirst, n.readNumber_eq h]
  exact scan_token (skipGap_solid hsolid _ _) hread (by decide)

/-- The mark that the character is on its own, whatever follows. -/
def soleMark? : Char → Option Mark
  | '(' => some .leftParen
  | ')' => some .rightParen
  | '[' => some .leftBracket
  | ']' => some .rightBracket
  | ';' => some .semicolon
  | ',' => some .comma
  | ':' => some .colon
  | '}' => some .rightBrace
  | _ => none

lemma scan_sole (total : Nat) {m} (h : soleMark? c = some m) (cs : List Char) :
    scan total (c :: cs) =
      .atToken total (total - (c :: cs).length) (.mark m) "" cs := by
  unfold soleMark? at h
  split at h
  case h_9 => cases h
  all_goals
    cases h
    exact scan_token rfl rfl nofun

@[simp]
lemma scan_leftParen (total : Nat) (cs : List Char) : scan total ('(' :: cs) =
    .atToken total (total - ('(' :: cs).length) (.mark .leftParen) "" cs :=
  scan_sole total rfl cs

@[simp]
lemma scan_rightParen (total : Nat) (cs : List Char) : scan total (')' :: cs) =
    .atToken total (total - (')' :: cs).length) (.mark .rightParen) "" cs :=
  scan_sole total rfl cs

@[simp]
lemma scan_comma (total : Nat) (cs : List Char) : scan total (',' :: cs) =
    .atToken total (total - (',' :: cs).length) (.mark .comma) "" cs :=
  scan_sole total rfl cs

@[simp]
lemma scan_colon (total : Nat) (cs : List Char) : scan total (':' :: cs) =
    .atToken total (total - (':' :: cs).length) (.mark .colon) "" cs :=
  scan_sole total rfl cs

@[simp]
lemma scan_leftBracket (total : Nat) (cs : List Char) : scan total ('[' :: cs) =
    .atToken total (total - ('[' :: cs).length) (.mark .leftBracket) "" cs :=
  scan_sole total rfl cs

@[simp]
lemma scan_rightBracket (total : Nat) (cs : List Char) : scan total (']' :: cs) =
    .atToken total (total - (']' :: cs).length) (.mark .rightBracket) "" cs :=
  scan_sole total rfl cs

/-- The operators written before an operand. -/
inductive PrefixSign where
  | plus | minus | tilde | bang

def PrefixSign.mark : PrefixSign → Mark
  | plus => .plus
  | minus => .minus
  | tilde => .tilde
  | bang => .bang

/-- The operators written between two operands, apart from those that begin with an angle bracket
or bind to the right. -/
inductive InfixSign where
  | coalesce | pipePipe | ampAmp | pipe | caret | amp | equal | notEqual | identical | notIdentical
  | lessEq | plus | minus | star | slash | percent

def InfixSign.mark : InfixSign → Mark
  | coalesce => .coalesce
  | pipePipe => .pipePipe
  | ampAmp => .ampAmp
  | pipe => .pipe
  | caret => .caret
  | amp => .amp
  | equal => .equal
  | notEqual => .notEqual
  | identical => .identical
  | notIdentical => .notIdentical
  | lessEq => .lessEq
  | plus => .plus
  | minus => .minus
  | star => .star
  | slash => .slash
  | percent => .percent

lemma scan_prefixSign (total : Nat) (sign : PrefixSign) (cs : List Char) :
    scan total (sign.mark.chars ++ ' ' :: cs) =
      .atToken total (total - (sign.mark.chars ++ ' ' :: cs).length) (.mark sign.mark) ""
        (' ' :: cs) := by
  cases sign <;> exact scan_token rfl rfl nofun

lemma scan_infixSign (total : Nat) (sign : InfixSign) (cs : List Char) :
    scan total (sign.mark.chars ++ ' ' :: cs) =
      .atToken total (total - (sign.mark.chars ++ ' ' :: cs).length) (.mark sign.mark) ""
        (' ' :: cs) := by
  cases sign <;> exact scan_token rfl rfl nofun

lemma scan_question (total : Nat) (cs : List Char) :
    scan total ('?' :: ' ' :: cs) =
      .atToken total (total - ('?' :: ' ' :: cs).length) (.mark .question) "" (' ' :: cs) :=
  scan_token rfl rfl nofun

lemma scan_assign (total : Nat) (cs : List Char) :
    scan total ('=' :: ' ' :: cs) =
      .atToken total (total - ('=' :: ' ' :: cs).length) (.mark .assign) "" (' ' :: cs) :=
  scan_token rfl rfl nofun

lemma scan_arrow (total : Nat) (cs : List Char) :
    scan total ('=' :: '>' :: cs) =
      .atToken total (total - ('=' :: '>' :: cs).length) (.mark .arrow) "" cs :=
  scan_token rfl rfl nofun

lemma scan_dot (total : Nat) (w : Word) (cs : List Char) :
    scan total ('.' :: (w.chars ++ cs)) =
      .atToken total (total - ('.' :: (w.chars ++ cs)).length) (.mark .dot) "" (w.chars ++ cs) := by
  have hfacts : w.first.isDigit = false ∧ w.first ≠ '.' :=
    ascii_cases (p := fun c => (c.isAlpha || c == '$' || c == '_') = true →
      c.isDigit = false ∧ c ≠ '.') (by decide) (toNat_lt_of_plain w.plain_first) w.begins
  have hmark : readMark? ('.' :: w.first :: (w.others ++ cs)) =
      some (.dot, w.first :: (w.others ++ cs)) := by
    rw [readMark?]
    rintro ds heq
    exact hfacts.2 (List.cons.inj heq).1
  have hread : readToken ('.' :: w.first :: (w.others ++ cs)) =
      (.mark .dot, "", false, w.first :: (w.others ++ cs)) := by
    have hstart : Text.isIdentifierStart '.' = false := rfl
    simp [readToken, hstart, hfacts.1, hmark]
  exact scan_token rfl hread nofun

lemma scan_bang (total : Nat) (h : endsWord cs = true) :
    scan total ('!' :: cs) =
      .atToken total (total - ('!' :: cs).length) (.mark .bang) "" cs := by
  have hmark : readMark? ('!' :: cs) = some (.bang, cs) := by
    cases cs with
    | nil => rfl
    | cons c cs =>
      have hc : c ≠ '=' := by
        rintro rfl
        cases h
      rw [readMark?]
      iterate 2
        · rintro ds heq
          exact hc (List.cons.inj heq).1
  have hread : readToken ('!' :: cs) = (.mark .bang, "", false, cs) := by
    have hstart : Text.isIdentifierStart '!' = false := rfl
    simp [readToken, hstart, hmark]
  exact scan_token rfl hread nofun

end SceneView.Script
