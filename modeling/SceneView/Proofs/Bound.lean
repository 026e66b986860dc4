import SceneView.Proofs.Identifier
import SceneView.Proofs.Script.Redirection
import SceneView.Value.Attribute

/-!
# Values in braces

A value in braces is accepted if its body begins with an expression. What follows the expression is
not looked at, and is carried over into the generated code as it stands.
-/

open List

namespace SceneView

open Text

namespace Text

variable {p : Char → Bool} {c d : Char} {a b cs : List Char}

lemma trimBy_eq_rdropWhile (p : Char → Bool) (cs : List Char) :
    trimBy p cs = (cs.dropWhile p).rdropWhile p := rfl

def BeginsFirm (cs : List Char) : Prop := ∃ c rest, cs = c :: rest ∧ isBlank c = false

def EndsFirm (cs : List Char) : Prop := ∃ front c, cs = front ++ [c] ∧ isBlank c = false

lemma BeginsFirm.append (h : BeginsFirm a) (b : List Char) : BeginsFirm (a ++ b) := by
  obtain ⟨c, rest, rfl, hc⟩ := h
  exact ⟨c, rest ++ b, rfl, hc⟩

lemma EndsFirm.append (h : EndsFirm b) (a : List Char) : EndsFirm (a ++ b) := by
  obtain ⟨front, c, rfl, hc⟩ := h
  exact ⟨a ++ front, c, (append_assoc ..).symm, hc⟩

lemma EndsFirm.cons (h : EndsFirm cs) (c : Char) : EndsFirm (c :: cs) := h.append [c]

lemma trimBy_eq_self (hbegins : BeginsFirm cs) (hends : EndsFirm cs) : trimBy isBlank cs = cs := by
  obtain ⟨c, rest, rfl, hc⟩ := hbegins
  obtain ⟨front, d, heq, hd⟩ := hends
  rw [trimBy_eq_rdropWhile, dropWhile_cons_of_neg (by simp [hc]), heq,
    rdropWhile_concat_neg _ _ _ (by simp [hd])]

lemma trimBy_append (hc : p c = false) (hd : p d = false) :
    trimBy p (c :: a ++ d :: b) = c :: a ++ trimBy p (d :: b) := by
  have hkeep : ((d :: b).reverse.dropWhile p).isEmpty = false := by
    rw [isEmpty_eq_false_iff, Ne, dropWhile_eq_nil_iff]
    intro h
    have hblank := h d (by simp)
    rw [hd] at hblank
    cases hblank
  rw [trimBy_eq_rdropWhile, trimBy_eq_rdropWhile, cons_append,
    dropWhile_cons_of_neg (by simp [hc]), dropWhile_cons_of_neg (by simp [hd]),
    ← cons_append, rdropWhile, reverse_append, dropWhile_append, hkeep]
  simp [rdropWhile]

lemma trimBy_cons (hd : p d = false) (b : List Char) : ∃ b', trimBy p (d :: b) = d :: b' := by
  rw [trimBy_eq_rdropWhile, dropWhile_cons_of_neg (by simp [hd])]
  have hprefix := rdropWhile_prefix p (d :: b)
  cases hrest : rdropWhile p (d :: b) with
  | nil =>
    have hblank := rdropWhile_eq_nil_iff.1 hrest d mem_cons_self
    rw [hd] at hblank
    cases hblank
  | cons d' b' =>
    rw [hrest] at hprefix
    obtain ⟨rfl, -⟩ := cons_prefix_cons.1 hprefix
    exact ⟨b', rfl⟩

end Text

namespace Script.Phrase

open Text

lemma isBlank_of_plain {c} (h : (c.isAlphanum || c == '$' || c == '_') = true) :
    isBlank c = false :=
  ascii_cases (p := fun c => (c.isAlphanum || c == '$' || c == '_') = true → isBlank c = false)
    (by decide) (toNat_lt_of_plain h) h

lemma endsFirm_of_plain {cs} (hne : cs ≠ [])
    (h : ∀ c ∈ cs, (c.isAlphanum || c == '$' || c == '_') = true) : EndsFirm cs :=
  ⟨cs.dropLast, cs.getLast hne, (dropLast_append_getLast hne).symm,
    isBlank_of_plain (h _ (getLast_mem hne))⟩

lemma plain_of_isDigit {c} (h : c.isDigit = true) :
    (c.isAlphanum || c == '$' || c == '_') = true := by
  rw [Char.isAlphanum, h, Bool.or_true]
  rfl

lemma plain_numeral (n : Numeral) :
    ∀ c ∈ n.chars, (c.isAlphanum || c == '$' || c == '_') = true :=
  fun c hc => plain_of_isDigit (all_eq_true.1 n.digits c hc)

variable {l : Layer}

lemma beginsFirm (p : Phrase l) : BeginsFirm p.chars := by
  induction p with
  | this | construct | arrow => exact ⟨_, _, rfl, rfl⟩
  | name v | arrowOf v => exact ⟨_, _, rfl, isBlank_of_plain v.plain_first⟩
  | text | paren => exact ⟨_, _, rfl, rfl⟩
  | member _ _ ih | nonNull _ ih | index _ _ ih | invoke _ ih | call _ _ ih => exact ih.append _
  | link chain ih => exact ih
  | number value => exact ⟨_, _, rfl, isBlank_of_plain (plain_numeral value _ mem_cons_self)⟩
  | prefixed sign operand =>
    cases sign with
    | _ => exact ⟨_, _, rfl, rfl⟩
  | binary _ _ _ ih | conditional _ _ _ ih => exact ih.append _
  | assign _ _ _ ih | more _ _ ih => exact ih.append _
  | simple _ ih | complex _ ih | last _ ih => exact ih

lemma endsFirm (p : Phrase l) : EndsFirm p.chars := by
  induction p with
  | this => exact ⟨['t', 'h', 'i'], 's', rfl, rfl⟩
  | name v => exact endsFirm_of_plain (cons_ne_nil _ _) v.plain_chars
  | text content => exact ⟨'\'' :: content.chars, '\'', rfl, rfl⟩
  | paren inner => exact ⟨'(' :: inner.chars, ')', rfl, rfl⟩
  | member object property ih =>
    exact ((endsFirm_of_plain (cons_ne_nil _ _) property.plain_chars).cons '.').append _
  | nonNull object => exact ⟨object.chars, '!', rfl, rfl⟩
  | index object key => exact EndsFirm.append ⟨'[' :: key.chars, ']', rfl, rfl⟩ _
  | invoke callee => exact EndsFirm.append ⟨['('], ')', rfl, rfl⟩ _
  | call callee arguments => exact EndsFirm.append ⟨'(' :: arguments.chars, ')', rfl, rfl⟩ _
  | construct type arguments =>
    have harguments : EndsFirm ('(' :: (arguments.chars ++ [')'])) :=
      ⟨'(' :: arguments.chars, ')', rfl, rfl⟩
    exact (harguments.append type.chars).append ['n', 'e', 'w', ' ']
  | link chain ih => exact ih
  | number value => exact endsFirm_of_plain (cons_ne_nil _ _) (plain_numeral value)
  | prefixed sign operand ih => exact (ih.cons ' ').append _
  | binary left sign right ihleft ihright =>
    exact (((ihright.cons ' ').append sign.mark.chars).cons ' ').append _
  | conditional test yes no ihtest ihyes ihno =>
    exact ((ihno.append [' ', ':', ' ']).append yes.chars |>.append [' ', '?', ' ']).append _
  | arrow body ih => exact ih.append ['(', ')', ' ', '=', '>', ' ']
  | arrowOf parameter body ih => exact (ih.append [' ', '=', '>', ' ']).append _
  | assign object property value ih ihvalue =>
    exact (((ihvalue.append [' ', '=', ' ']).append property.chars).cons '.').append _
  | simple _ ih | complex _ ih | last _ ih => exact ih
  | more item rest ihitem ihrest => exact (ihrest.append [',', ' ']).append _

lemma trimBy_chars (p : Phrase l) : trimBy isBlank p.chars = p.chars :=
  trimBy_eq_self p.beginsFirm p.endsFirm

end Script.Phrase

namespace Value

open Script

def inner? (raw : String) : Option String :=
  (body? (Text.trim raw)).map Text.trim

def braced (cs : List Char) : String :=
  String.ofList ('{' :: (cs ++ ['}']))

lemma trim_braced (cs : List Char) : trim (braced cs) = braced cs := by
  rw [trim, braced, String.toList_ofList]
  exact congrArg String.ofList (trimBy_eq_self ⟨_, _, rfl, rfl⟩ ⟨'{' :: cs, '}', rfl, rfl⟩)

lemma inner?_braced (cs : List Char) :
    inner? (braced cs) = some (String.ofList (trimBy isBlank cs)) := by
  have hbody : body? (braced cs) = some (String.ofList cs) := by simp [body?, braced]
  rw [inner?, trim_braced, hbody, Option.map_some, trim, String.toList_ofList]

variable {host raw : String} {e : HostExpression} {front trail : List Char} {tree : Tree} {d : Char}

lemma bound?_eq_ok_iff :
    bound? host raw = .ok (some e) ↔
      ∃ body, inner? raw = some body ∧ body ≠ "" ∧ redirect? host body = some e := by
  unfold bound? inner?
  dsimp only
  cases body? (trim raw) with
  | none => simp
  | some body =>
    simp only [Option.map_some, Option.some.injEq, exists_eq_left']
    split
    · simp_all
    · next hne =>
      cases redirect? host (trim body) with
      | none => simp
      | some e' => simp [hne]

lemma bound?_trim (host raw : String) : bound? host (trim raw) = bound? host raw := by
  rw [bound?, bound?, trim_trim]

namespace Binder

variable {b : Binder} {raw : String} {e : HostExpression}

lemma argument_of_bound (h : bound? b.host raw = .ok (some e)) (quoteLiteral : Bool) :
    b.argument raw quoteLiteral = .ok e.code := by
  rw [argument, bound?_trim, h]
  rfl

lemma typed_of_bound (h : bound? b.host raw = .ok (some e)) (type : String) :
    b.typed type raw = .ok (e.code, none) := by
  rw [typed, bound?_trim, h]
  rfl

lemma translate_of_bound (h : bound? b.host raw = .ok (some e)) (name target : String)
    (options : Options) : ∃ t, b.translate name raw target options = .ok t ∧ t.value = e.code ∧
      t.setter = ⟨⟨options.path?.getD target, options.deferred⟩, name, options.form⟩ ∧
      t.binding? = if t.setter.isRepeatable then e.path.map (b.engine, ·) else none := by
  rw [translate, bound?_trim, h]
  exact ⟨_, rfl, rfl, rfl, rfl⟩

end Binder

def Leaves (text : List Char) (tree : Tree) (front trail : List Char) : Prop :=
  ∃ c, Script.Reading text tree c ∧ front = text.take c.token.start ∧ trail = text.drop c.token.start

def IsWhole (text : List Char) : Prop :=
  ∃ tree c, Script.Reading text tree c ∧ c.token.kind = .finish

lemma isWhole_iff {text} (h : Leaves text tree front trail) : IsWhole text ↔ trail = [] := by
  obtain ⟨c, hreading, -, rfl⟩ := h
  rw [drop_eq_nil_iff]
  constructor
  · rintro ⟨tree', c', hreading', hfinish⟩
    have hsame : (tree', c') = (tree, c) := Option.some.inj (hreading'.run.symm.trans hreading.run)
    cases hsame
    exact (hreading.lies.finish_iff.1 hfinish).ge
  · intro hle
    exact ⟨tree, c, hreading, hreading.lies.finish_iff.2 (hreading.lies.start_le.antisymm hle)⟩

lemma redirectAt_leaves {text} (h : Leaves text.toList tree front trail) :
    (redirectAt host text tree.roots).toList =
      substituteFrom tree.roots (hostAccess host).toList 0 front ++ trail := by
  obtain ⟨c, hreading, rfl, rfl⟩ := h
  have hlength : (text.toList.take c.token.start).length = c.token.start :=
    length_take_of_le hreading.lies.start_le
  rw [redirectAt, String.toList_ofList]
  nth_rewrite 1 [← take_append_drop c.token.start text.toList]
  rw [substituteFrom_append, hlength, Nat.zero_add]
  congr 1
  exact substituteFrom_eq_self fun s hs => .inl (hreading.stand_roots.between s hs).2

def closers : List Char := [')', ']', '}', ';', ':']

lemma leaves_phrase (p : Phrase .list) (hd : d ∈ closers) (more : List Char) :
    Leaves (p.chars ++ d :: more) (Phrase.tree.sequence (p.tree 0)) p.chars (d :: more) := by
  have hstart : (Cursor.scan (p.chars ++ d :: more).length (d :: more)).token.start =
      p.chars.length := by
    have hmark : ∀ d ∈ closers, ∃ m, soleMark? d = some m := by simp [closers, soleMark?]
    obtain ⟨m, hm⟩ := hmark d hd
    rw [scan_sole _ hm, Rule.atToken_token, length_append, Nat.add_sub_cancel]
  refine ⟨_, p.reading (.mark hd more), ?_, ?_⟩
  · rw [hstart, take_left]
  · rw [hstart, drop_left]

lemma redirect?_eq_some_iff_leaves {text} :
    redirect? host text = some e ↔ ∃ tree front trail, Leaves text.toList tree front trail ∧
      e = ⟨String.ofList (substituteFrom tree.roots (hostAccess host).toList 0 front ++ trail),
        tree.path?.map (pathText host)⟩ := by
  have hcode : ∀ {tree front trail}, Leaves text.toList tree front trail →
      redirectAt host text tree.roots =
        String.ofList (substituteFrom tree.roots (hostAccess host).toList 0 front ++ trail) :=
    fun h => by rw [← redirectAt_leaves h, String.ofList_toList]
  rw [redirect?_eq_some_iff]
  constructor
  · rintro ⟨tree, c, hreading, rfl⟩
    have hleaves : Leaves text.toList tree _ _ := ⟨c, hreading, rfl, rfl⟩
    exact ⟨tree, _, _, hleaves, by rw [hcode hleaves]⟩
  · rintro ⟨tree, front, trail, hleaves, rfl⟩
    rw [← hcode hleaves]
    obtain ⟨c, hreading, -, -⟩ := hleaves
    exact ⟨tree, c, hreading, rfl⟩

lemma ne_empty_of_leaves {body} (h : Leaves body.toList tree front trail) : body ≠ "" := by
  rintro rfl
  obtain ⟨c, hreading, -, -⟩ := h
  have hparse : parse? [] = some tree := parse?_eq_some_iff.2 ⟨c, hreading⟩
  cases hparse

lemma bound?_eq_ok_iff_leaves :
    bound? host raw = .ok (some e) ↔ ∃ body tree front trail,
      inner? raw = some body ∧ Leaves body.toList tree front trail ∧
      e = ⟨String.ofList (substituteFrom tree.roots (hostAccess host).toList 0 front ++ trail),
        tree.path?.map (pathText host)⟩ := by
  simp only [bound?_eq_ok_iff, redirect?_eq_some_iff_leaves]
  constructor
  · rintro ⟨body, hinner, -, tree, front, trail, hleaves, he⟩
    exact ⟨body, tree, front, trail, hinner, hleaves, he⟩
  · rintro ⟨body, tree, front, trail, hinner, hleaves, he⟩
    exact ⟨body, hinner, ne_empty_of_leaves hleaves, tree, front, trail, hleaves, he⟩

lemma trimBy_closed (p : Phrase .list) (hd : d ∈ closers) (more : List Char) :
    ∃ more', trimBy isBlank (d :: more) = d :: more' ∧
      trimBy isBlank (p.chars ++ d :: more) = p.chars ++ d :: more' := by
  have hfirm : ∀ d ∈ closers, isBlank d = false := forall_mem_of_all (by decide)
  obtain ⟨c, cs, hchars, hc⟩ := p.beginsFirm
  obtain ⟨more', hmore⟩ := trimBy_cons (hfirm d hd) more
  refine ⟨more', hmore, ?_⟩
  rw [hchars, ← hmore]
  exact trimBy_append hc (hfirm d hd)

lemma leaves_trimmed (p : Phrase .list) (hd : d ∈ closers) (more : List Char) :
    ∃ more', trimBy isBlank (d :: more) = d :: more' ∧
      Leaves (trimBy isBlank (p.chars ++ d :: more)) (Phrase.tree.sequence (p.tree 0))
        p.chars (trimBy isBlank (d :: more)) := by
  obtain ⟨more', hmore, htrim⟩ := trimBy_closed p hd more
  rw [htrim, hmore]
  exact ⟨more', rfl, leaves_phrase p hd more'⟩

lemma bound?_phrase (host : String) (p : Phrase .list) (hd : d ∈ closers) (more : List Char) :
    bound? host (braced (p.chars ++ d :: more)) = .ok (some
      ⟨String.ofList (substituteFrom (Tree.rootsAll (p.tree 0)) (hostAccess host).toList 0 p.chars ++
        trimBy isBlank (d :: more)),
        (Phrase.tree.sequence (p.tree 0)).path?.map (pathText host)⟩) := by
  obtain ⟨-, -, hleaves⟩ := leaves_trimmed p hd more
  exact bound?_eq_ok_iff_leaves.2 ⟨_, _, _, _, inner?_braced _, by rwa [String.toList_ofList],
    by rw [Phrase.roots_sequence]⟩

lemma bound?_eq_error_iff {body} (h : inner? raw = some body) (hne : body ≠ "") :
    bound? host raw = .error (.invalidExpression body .malformed) ↔
      ∀ tree front trail, ¬ Leaves body.toList tree front trail := by
  obtain ⟨value, hvalue, rfl⟩ := Option.map_eq_some_iff.1 h
  unfold bound?
  dsimp only
  rw [hvalue]
  dsimp only
  rw [if_neg hne]
  constructor
  · intro herror tree front trail hleaves
    rw [redirect?_eq_some_iff_leaves.2 ⟨tree, front, trail, hleaves, rfl⟩] at herror
    cases herror
  · intro hnone
    cases hredirect : redirect? host (trim value) with
    | none => rfl
    | some e =>
      obtain ⟨tree, front, trail, hleaves, -⟩ := redirect?_eq_some_iff_leaves.1 hredirect
      exact absurd hleaves (hnone tree front trail)

/-- A value in braces is accepted exactly if an expression stands at its front. The trail behind the
expression is emitted as it stands, and the value is one expression exactly if there is no trail. So
a phrase is accepted with any characters behind the one that closes it. -/
theorem bound_keeps_trail (b : Binder) :
    (∀ raw e, bound? b.host raw = .ok (some e) ↔ ∃ body tree front trail,
      inner? raw = some body ∧ Leaves body.toList tree front trail ∧
      e = ⟨String.ofList (substituteFrom tree.roots (hostAccess b.host).toList 0 front ++ trail),
        tree.path?.map (pathText b.host)⟩) ∧
    (∀ raw body, inner? raw = some body → body ≠ "" →
      (bound? b.host raw = .error (.invalidExpression body .malformed) ↔
        ∀ tree front trail, ¬ Leaves body.toList tree front trail)) ∧
    (∀ text tree front trail, Leaves text tree front trail →
      text = front ++ trail ∧ (IsWhole text ↔ trail = [])) ∧
    (∀ raw e, bound? b.host raw = .ok (some e) → ∀ name target options type quoteLiteral,
      (b.translate name raw target options).map (·.value) = .ok e.code ∧
      b.argument raw quoteLiteral = .ok e.code ∧ b.typed type raw = .ok (e.code, none)) ∧
    (∀ (p : Phrase .list) (d : Char) (more : List Char), d ∈ closers →
      ∃ body e, inner? (braced (p.chars ++ d :: more)) = some body ∧ ¬ IsWhole body.toList ∧
        bound? b.host (braced (p.chars ++ d :: more)) = .ok (some e) ∧
        e.code.toList =
          substituteFrom (Tree.rootsAll (p.tree 0)) (hostAccess b.host).toList 0 p.chars ++
            Text.trimBy Text.isBlank (d :: more)) := by
  refine ⟨fun raw e => bound?_eq_ok_iff_leaves, fun raw body => bound?_eq_error_iff,
    fun text tree front trail h => ⟨?_, isWhole_iff h⟩,
    fun raw e h name target options type quoteLiteral => ?_, fun p d more hd => ?_⟩
  · obtain ⟨c, -, rfl, rfl⟩ := h
    exact (List.take_append_drop ..).symm
  · obtain ⟨t, ht, hvalue, -⟩ := b.translate_of_bound h name target options
    refine ⟨?_, b.argument_of_bound h quoteLiteral, b.typed_of_bound h type⟩
    rw [ht, ← hvalue]
    rfl
  · obtain ⟨more', hmore, hleaves⟩ := leaves_trimmed p hd more
    refine ⟨_, _, inner?_braced _, ?_, bound?_phrase b.host p hd more, String.toList_ofList⟩
    rw [String.toList_ofList, isWhole_iff hleaves, hmore]
    exact List.cons_ne_nil d more'

def firstOfTwo : Phrase .list := .last (.simple (.link (.member .this ⟨'a', [], rfl, rfl⟩)))

/-- The value of two expressions in braces is accepted with the second as a trail, and emitted so. -/
theorem firstOfTwo_keeps_trail :
    '}' ∈ closers ∧
    bound? "_host" "\x7bthis.a\x7d \x7bthis.b\x7d" =
      .ok (some ⟨"this._host.a\x7d \x7bthis.b", some "this._host.a"⟩) ∧
    (Binder.argument ⟨"_host", "_bindingEngine"⟩ "\x7bthis.a\x7d \x7bthis.b\x7d" true =
      .ok "this._host.a\x7d \x7bthis.b") ∧
    ∃ body e, inner? (braced (firstOfTwo.chars ++ '}' :: " \x7bthis.b".toList)) = some body ∧
      ¬ IsWhole body.toList ∧
      bound? "_host" (braced (firstOfTwo.chars ++ '}' :: " \x7bthis.b".toList)) = .ok (some e) ∧
      e.code.toList =
        substituteFrom (Tree.rootsAll (firstOfTwo.tree 0)) (hostAccess "_host").toList 0
          firstOfTwo.chars ++ Text.trimBy Text.isBlank ('}' :: " \x7bthis.b".toList) := by
  have hclosers : '}' ∈ closers := by decide
  have haccepted : bound? "_host" "\x7bthis.a\x7d \x7bthis.b\x7d" =
      .ok (some ⟨"this._host.a\x7d \x7bthis.b", some "this._host.a"⟩) := by
    decide +kernel
  obtain ⟨-, -, -, hemits, hfamily⟩ := bound_keeps_trail ⟨"_host", "_bindingEngine"⟩
  exact ⟨hclosers, haccepted, (hemits _ _ haccepted "" "" {} "" true).2.1,
    hfamily firstOfTwo '}' " \x7bthis.b".toList hclosers⟩

/-- The second expression of the value is neither read nor redirected. -/
theorem second_expression_not_read :
    ¬ IsWhole "this.a\x7d \x7bthis.b".toList ∧
    bound? "_host" "\x7bthis.a\x7d \x7bthis.b\x7d" =
      .ok (some ⟨"this._host.a\x7d \x7bthis.b", some "this._host.a"⟩) := by
  refine ⟨fun h => ?_, by decide +kernel⟩
  have hleaves := leaves_phrase firstOfTwo (d := '}') (by decide) " \x7bthis.b".toList
  cases (isWhole_iff hleaves).1 h

end Value

end SceneView
