import SceneView.Proofs.Script.Lexeme

/-!
# Phrases

A sublanguage of expressions in which every phrase has one spelling: property chains, calls,
constructions, operators, conditions, arrow functions, assignments and lists of them. Operators are
not nested without parentheses. The layers of the language keep a phrase from standing where its
spelling would be read as something else.
-/

open List

namespace SceneView.Script

open Cursor

/-- The layers of the language, each made of the ones before it. -/
inductive Layer where
  /-- A value with its member accesses and calls. -/
  | chain
  /-- A chain or number with the operators before it. -/
  | operand
  /-- An operation that stands in parentheses when it is part of another. -/
  | compound
  /-- An expression without a comma. -/
  | single
  /-- One or more expressions, separated by commas. -/
  | list

/-- A word that names a variable. -/
structure Variable extends Word where
  free : toWord.kind = .name

/-- The phrases of a layer. -/
inductive Phrase : Layer → Type where
  | this : Phrase .chain
  | name (v : Variable) : Phrase .chain
  | text (content : PlainText) : Phrase .chain
  | paren (inner : Phrase .compound) : Phrase .chain
  | member (object : Phrase .chain) (property : Word) : Phrase .chain
  | nonNull (object : Phrase .chain) : Phrase .chain
  | index (object : Phrase .chain) (key : Phrase .list) : Phrase .chain
  | invoke (callee : Phrase .chain) : Phrase .chain
  | call (callee : Phrase .chain) (arguments : Phrase .list) : Phrase .chain
  | construct (type : Variable) (arguments : Phrase .list) : Phrase .chain
  | link (chain : Phrase .chain) : Phrase .operand
  | number (value : Numeral) : Phrase .operand
  | prefixed (sign : PrefixSign) (operand : Phrase .operand) : Phrase .operand
  | binary (left : Phrase .operand) (sign : InfixSign) (right : Phrase .operand) : Phrase .compound
  | conditional (test : Phrase .operand) (yes no : Phrase .single) : Phrase .compound
  | arrow (body : Phrase .single) : Phrase .compound
  | arrowOf (parameter : Variable) (body : Phrase .single) : Phrase .compound
  | assign (object : Phrase .chain) (property : Word) (value : Phrase .single) : Phrase .compound
  | simple (operand : Phrase .operand) : Phrase .single
  | complex (operation : Phrase .compound) : Phrase .single
  | last (item : Phrase .single) : Phrase .list
  | more (item : Phrase .single) (rest : Phrase .list) : Phrase .list

namespace Phrase

def chars : {l : Layer} → Phrase l → List Char
  | _, this => thisChars
  | _, name v => v.chars
  | _, text content => '\'' :: (content.chars ++ ['\''])
  | _, paren inner => '(' :: (inner.chars ++ [')'])
  | _, member object property => object.chars ++ '.' :: property.chars
  | _, nonNull object => object.chars ++ ['!']
  | _, index object key => object.chars ++ '[' :: (key.chars ++ [']'])
  | _, invoke callee => callee.chars ++ ['(', ')']
  | _, call callee arguments => callee.chars ++ '(' :: (arguments.chars ++ [')'])
  | _, construct type arguments =>
    'n' :: 'e' :: 'w' :: ' ' :: (type.chars ++ '(' :: (arguments.chars ++ [')']))
  | _, link chain => chain.chars
  | _, number value => value.chars
  | _, prefixed sign operand => sign.mark.chars ++ ' ' :: operand.chars
  | _, binary left sign right =>
    left.chars ++ ' ' :: (sign.mark.chars ++ ' ' :: right.chars)
  | _, conditional test yes no =>
    test.chars ++ ' ' :: '?' :: ' ' :: (yes.chars ++ ' ' :: ':' :: ' ' :: no.chars)
  | _, arrow body => '(' :: ')' :: ' ' :: '=' :: '>' :: ' ' :: body.chars
  | _, arrowOf parameter body => parameter.chars ++ ' ' :: '=' :: '>' :: ' ' :: body.chars
  | _, assign object property value =>
    object.chars ++ '.' :: (property.chars ++ ' ' :: '=' :: ' ' :: value.chars)
  | _, simple operand => operand.chars
  | _, complex operation => operation.chars
  | _, last item => item.chars
  | _, more item rest => item.chars ++ ',' :: ' ' :: rest.chars

end Phrase

/-- What a phrase of the layer is read as. -/
@[reducible]
def Layer.Result : Layer → Type
  | .list => List Tree
  | _ => Tree

namespace Phrase

def infixTree (sign : InfixSign) (left right : Tree) : Tree :=
  match sign with
  | .coalesce => .node .coalesce [left, right]
  | .pipePipe | .ampAmp => .node .logical [left, right]
  | _ => .node .binary [left, right]

/-- The tree, or trees, of a phrase that stands at an offset. -/
def tree : {l : Layer} → Nat → Phrase l → l.Result
  | _, start, this => .this start
  | _, _, name v => .name v.spelling
  | _, _, text _ => .node .literal []
  | _, start, paren inner => .node .paren [inner.tree (start + 1)]
  | _, start, member object property => .member (object.tree start) property.spelling
  | _, start, nonNull object => .node .nonNull [object.tree start]
  | _, start, index object key =>
    .node .index [object.tree start, sequence (key.tree (start + object.chars.length + 1))]
  | _, start, invoke callee => .node .call [callee.tree start]
  | _, start, call callee arguments =>
    .node .call (callee.tree start :: arguments.tree (start + callee.chars.length + 1))
  | _, start, construct type arguments =>
    .node .new (.name type.spelling :: arguments.tree (start + 4 + type.chars.length + 1))
  | _, start, link chain => @tree .chain start chain
  | _, _, number _ => .node .literal []
  | _, start, prefixed sign operand => .node .unary [operand.tree (start + sign.mark.chars.length + 1)]
  | _, start, binary left sign right =>
    infixTree sign (left.tree start)
      (right.tree (start + left.chars.length + 1 + sign.mark.chars.length + 1))
  | _, start, conditional test yes no =>
    .node .conditional [test.tree start, yes.tree (start + test.chars.length + 3),
      no.tree (start + test.chars.length + 3 + yes.chars.length + 3)]
  | _, start, arrow body => .node .arrow [body.tree (start + 6)]
  | _, start, arrowOf parameter body =>
    .node .arrow [.name parameter.spelling, body.tree (start + parameter.chars.length + 4)]
  | _, start, assign object property value =>
    .node .assign [.member (object.tree start) property.spelling,
      value.tree (start + object.chars.length + 1 + property.chars.length + 3)]
  | _, start, simple operand => @tree .operand start operand
  | _, start, complex operation => @tree .compound start operation
  | _, start, last item => [item.tree start]
  | _, start, more item rest => item.tree start :: rest.tree (start + item.chars.length + 2)
where
  /-- One expression, or several separated by commas. -/
  sequence : List Tree → Tree
    | [t] => t
    | ts => .node .sequence ts

def trees {l : Layer} (start : Nat) (p : Phrase l) : List Tree :=
  match l, p with
  | .list, p => p.tree start
  | .chain, p => [p.tree start]
  | .operand, p => [p.tree start]
  | .compound, p => [p.tree start]
  | .single, p => [p.tree start]

lemma isComplete_sequence {trees} (h : Tree.areComplete trees = true) :
    (tree.sequence trees).isComplete = true := by
  unfold tree.sequence
  split
  · simpa [Tree.areComplete] using h
  · simpa [Tree.isComplete] using h

lemma isComplete_infixTree (sign : InfixSign) {left right}
    (h : Tree.areComplete [left, right] = true) :
    (infixTree sign left right).isComplete = true := by
  cases sign <;> exact h

lemma areComplete_trees {l} (p : Phrase l) (start : Nat) :
    Tree.areComplete (p.trees start) = true := by
  induction p generalizing start with
  | index object key ihobject ihkey =>
    have hkey := isComplete_sequence (ihkey (start + object.chars.length + 1))
    simp_all [trees, tree, Tree.areComplete, Tree.isComplete]
  | binary left sign right ihleft ihright =>
    simp_all [trees, tree, Tree.areComplete, isComplete_infixTree sign]
  | _ => simp_all [trees, tree, Tree.areComplete, Tree.isComplete]

/-- Whether the characters can follow a phrase of the layer. -/
def follows : Layer → List Char → Bool
  | .chain => endsWord
  | _ => endsOperand

def startKinds : Layer → List Kind
  | .chain => [.keyword .thisKw, .keyword .newKw, .name, .string, .mark .leftParen]
  | _ => [.keyword .thisKw, .keyword .newKw, .name, .string, .mark .leftParen, .number, .mark .plus,
    .mark .minus, .mark .tilde, .mark .bang]

lemma startKinds_chain_subset : startKinds .chain ⊆ startKinds .operand := by decide

def thisWord : Word := ⟨'t', ['h', 'i', 's'], rfl, rfl⟩

def newWord : Word := ⟨'n', ['e', 'w'], rfl, rfl⟩

lemma scan_this (total : Nat) {rest} (h : endsWord rest = true) :
    scan total (thisChars ++ rest) =
      .atToken total (total - (thisChars ++ rest).length) (.keyword .thisKw) "this" rest :=
  scan_word total thisWord h

lemma scan_new (total : Nat) (rest : List Char) :
    scan total ('n' :: 'e' :: 'w' :: ' ' :: rest) =
      .atToken total (total - ('n' :: 'e' :: 'w' :: ' ' :: rest).length) (.keyword .newKw) "new"
        (' ' :: rest) :=
  scan_word total newWord rfl

lemma scan_variable (total : Nat) (v : Variable) {rest} (h : endsWord rest = true) :
    scan total (v.chars ++ rest) =
      .atToken total (total - (v.chars ++ rest).length) .name v.spelling rest := by
  have hscan := scan_word total v.toWord h
  rwa [v.free] at hscan

lemma scan_chars {l} (p : Phrase l) (total : Nat) {rest} (h : follows l rest = true) :
    ∃ kind ∈ startKinds l, ∃ text left,
      scan total (p.chars ++ rest) =
        .atToken total (total - (p.chars ++ rest).length) kind text left := by
  induction p generalizing rest with
  | this => exact ⟨_, by decide, _, _, scan_this total h⟩
  | name v => exact ⟨_, by decide, _, _, scan_variable total v h⟩
  | text content =>
    rw [chars, cons_append, append_assoc]
    exact ⟨_, by decide, _, _, scan_plainText total content rest⟩
  | paren | arrow => exact ⟨_, by decide, _, _, scan_sole total rfl _⟩
  | member _ _ ih | nonNull _ ih | index _ _ ih | invoke _ ih | call _ _ ih =>
    rw [chars, append_assoc]
    exact ih rfl
  | construct type arguments => exact ⟨_, by decide, _, _, scan_new total _⟩
  | link chain ih =>
    obtain ⟨kind, hkind, hscan⟩ := ih (endsWord_of_endsOperand h)
    exact ⟨kind, startKinds_chain_subset hkind, hscan⟩
  | number value => exact ⟨_, by decide, _, _, scan_numeral total value h⟩
  | prefixed sign operand =>
    rw [chars, append_assoc]
    refine ⟨_, ?_, _, _, scan_prefixSign total sign _⟩
    cases sign <;> decide
  | binary _ _ _ ih | conditional _ _ _ ih =>
    rw [chars, append_assoc]
    exact ih rfl
  | arrowOf parameter body =>
    rw [chars, append_assoc]
    exact ⟨_, by decide, _, _, scan_variable total parameter rfl⟩
  | assign object property value ih =>
    rw [chars, append_assoc]
    have hends : follows .chain
        ('.' :: (property.chars ++ ' ' :: '=' :: ' ' :: value.chars) ++ rest) = true := rfl
    obtain ⟨kind, hkind, hscan⟩ := ih hends
    exact ⟨kind, startKinds_chain_subset hkind, hscan⟩
  | simple _ ih | complex _ ih | last _ ih => exact ih h
  | more item rest ih =>
    rw [chars, append_assoc]
    exact ih rfl

end Phrase

namespace Phrase

/-- Whether the token is none of those that make a parenthesis look like the parameters of an arrow
function. -/
structure Unlike (c : Cursor) : Prop where
  separates : c.token.kind ∉ [.mark .colon, .mark .comma, .mark .assign, .mark .rightParen]
  asks : c.token.kind = .mark .question → c.next.token.kind ∈ startKinds .single

lemma Unlike.of_mark {total start m left}
    (h : m ∉ [.colon, .comma, .assign, .rightParen, .question]) :
    Unlike (.atToken total start (.mark m) "" left) := by
  simp only [mem_cons, not_mem_nil, or_false, not_or] at h
  obtain ⟨hcolon, hcomma, hassign, hparen, hquestion⟩ := h
  refine ⟨?_, fun heq => absurd (Kind.mark.inj heq) hquestion⟩
  simp [atToken, hcolon, hcomma, hassign, hparen]

lemma Unlike.of_after {total rest c} (h : Unlike c ∨ c = .scan total rest)
    (hrest : Unlike (.scan total rest)) : Unlike c := by
  obtain hunlike | rfl := h
  · exact hunlike
  · exact hrest

/-- What stands behind a word at the front of a phrase. -/
def AfterWord (total : Nat) (rest : List Char) (c : Cursor) : Layer → Prop
  | .chain | .operand => Unlike c ∨ c = .scan total rest
  | .compound => Unlike c
  | _ => True

lemma afterWord {l} (p : Phrase l) (total : Nat) {rest} (h : follows l rest = true)
    (hword : (scan total (p.chars ++ rest)).token.kind ∈ [.name, .keyword .thisKw]) :
    AfterWord total rest (scan total (p.chars ++ rest)).next l := by
  induction p generalizing rest with
  | this =>
    rw [chars, scan_this total h]
    exact .inr (next_atToken ..)
  | name v =>
    rw [chars, scan_variable total v h]
    exact .inr (next_atToken ..)
  | text content =>
    rw [chars, cons_append, append_assoc, singleton_append,
      scan_plainText total content rest] at hword
    simp [atToken] at hword
  | paren | arrow =>
    rw [chars, cons_append, scan_sole total rfl] at hword
    simp [atToken] at hword
  | member object property ih =>
    rw [chars, append_assoc] at hword ⊢
    refine .inl (.of_after (ih rfl hword) ?_)
    rw [cons_append, scan_dot]
    exact .of_mark (by decide)
  | nonNull object ih =>
    rw [chars, append_assoc] at hword ⊢
    refine .inl (.of_after (ih rfl hword) ?_)
    rw [singleton_append, scan_bang total h]
    exact .of_mark (by decide)
  | index _ _ ih | invoke _ ih | call _ _ ih =>
    rw [chars, append_assoc] at hword ⊢
    refine .inl (.of_after (ih rfl hword) ?_)
    rw [cons_append, scan_sole total rfl]
    exact .of_mark (by decide)
  | construct type arguments =>
    rw [chars, cons_append, cons_append, cons_append, cons_append,
      scan_new] at hword
    simp [atToken] at hword
  | link chain ih => exact ih (endsWord_of_endsOperand h) hword
  | number value =>
    rw [chars, scan_numeral total value h] at hword
    simp [atToken] at hword
  | prefixed sign operand =>
    rw [chars, append_assoc, cons_append, scan_prefixSign] at hword
    simp [atToken] at hword
  | binary left sign right ih =>
    rw [chars, append_assoc] at hword ⊢
    refine .of_after (ih rfl hword) ?_
    rw [cons_append, append_assoc, scan_space, cons_append, scan_infixSign]
    refine .of_mark ?_
    cases sign <;> decide
  | conditional test yes no ih =>
    rw [chars, append_assoc] at hword ⊢
    refine .of_after (ih rfl hword) ?_
    rw [cons_append, cons_append, cons_append, scan_space, scan_question]
    refine ⟨by simp [atToken], fun _ => ?_⟩
    rw [next_atToken, scan_space, append_assoc]
    obtain ⟨kind, hkind, text, left, hscan⟩ :=
      yes.scan_chars total
        (show follows .single (' ' :: ':' :: ' ' :: no.chars ++ rest) = true from rfl)
    rw [hscan]
    exact hkind
  | arrowOf parameter body =>
    rw [chars, append_assoc, scan_variable total parameter rfl, next_atToken,
      cons_append, scan_space, cons_append, cons_append, scan_arrow]
    exact .of_mark (by decide)
  | assign object property value ih =>
    rw [chars, append_assoc] at hword ⊢
    refine .of_after (ih rfl hword) ?_
    rw [cons_append, append_assoc, scan_dot]
    exact .of_mark (by decide)
  | simple | complex | last | more => trivial

end Phrase

end SceneView.Script
