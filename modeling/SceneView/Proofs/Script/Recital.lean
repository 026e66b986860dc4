import SceneView.Proofs.Script.Reading
import SceneView.Proofs.Script.Steps

/-!
# Phrases are read as they are spelled

Followed by characters that cannot continue it, a phrase is read as its tree, and the reading stops
at what follows. The proof goes by induction on the phrase; each layer has its own rule of the
grammar.
-/

open List

namespace SceneView.Script

namespace Phrase

open Rule Cursor

/-- A phrase of a layer stands at an offset before characters that cannot continue it, and the rules
refer back deep enough for it. -/
structure Stands {l : Layer} (p : Phrase l) (n slack : Nat) (ctx : Context) (total start : Nat)
    (rest : List Char) : Prop where
  deep : 8 * p.chars.length + slack ≤ n
  plain : ctx.inDecorator = false
  ends : follows l rest = true
  place : total = start + (p.chars ++ rest).length

def head : Phrase .list → Phrase .single
  | last item => item
  | more item _ => item

def tailChars : Phrase .list → List Char
  | last _ => []
  | more _ rest => ',' :: ' ' :: rest.chars

def tailTrees (start : Nat) : Phrase .list → List Tree
  | last _ => []
  | more item rest => rest.tree (start + item.chars.length + 2)

lemma chars_eq_head (p : Phrase .list) : p.chars = p.head.chars ++ p.tailChars := by
  cases p with
  | last item => exact (append_nil _).symm
  | more item rest => rfl

lemma tree_eq_head (p : Phrase .list) (start : Nat) :
    p.tree start = p.head.tree start :: p.tailTrees start := by
  cases p <;> rfl

def argument (R : Rules) (ctx : Context) : Rule Tree := do
  if ← eat .ellipsis then return .node .spread [← R.assignment ctx true]
  R.assignment ctx true

def nextItem (R : Rules) (ctx : Context) : Rule (Option Tree) := do
  if ← eat .comma then return some (← R.assignment ctx true)
  return none

/-- A chain is read together with what extends it. -/
def ReadsChain (p : Phrase .chain) : Prop :=
  ∀ {n ctx total start rest o}, p.Stands n 0 ctx total start rest →
    Extends (Rules.upTo n) ctx (p.tree start) (.scan total rest) o →
    (leftHand (Rules.upTo n) ctx).run (.scan total (p.chars ++ rest)) = o

/-- An operand is read before a token that does not extend it. -/
def ReadsOperand (p : Phrase .operand) : Prop :=
  ∀ {n ctx total start rest}, p.Stands n 1 ctx total start rest →
    endsChain (Cursor.scan total rest).token.kind = true →
    (unary (Rules.upTo n) ctx).run (.scan total (p.chars ++ rest)) =
      some (p.tree start, .scan total rest)

/-- A phrase is read as an expression without a comma before a token that closes it. -/
def ReadsSingle {l : Layer} (p : Phrase l) (tree : Nat → Tree) : Prop :=
  ∀ {n ctx returnType total start rest}, p.Stands n 3 ctx total start rest →
    endsSingle (Cursor.scan total rest).token.kind = true →
    (assignment (Rules.upTo n) ctx returnType).run (.scan total (p.chars ++ rest)) =
      some (tree start, .scan total rest)

/-- A list is read both as arguments and as a sequence. -/
structure ReadsList (p : Phrase .list) : Prop where
  head : ReadsSingle p.head fun start => p.head.tree start
  arguments : ∀ {n ctx total start rest o}, p.Stands n 4 ctx total start rest →
    endsSingle (Cursor.scan total rest).token.kind = true →
    Lists .rightParen (argument (Rules.upTo n) ctx) (.scan total rest) o →
    Lists .rightParen (argument (Rules.upTo n) ctx) (.scan total (p.tailChars ++ rest))
      (o.map fun r => (p.tailTrees start ++ r.1, r.2))
  sequence : ∀ {n ctx total start rest}, p.Stands n 4 ctx total start rest →
    endsSingle (Cursor.scan total rest).token.kind = true →
    (Cursor.scan total rest).token.kind ≠ .mark .comma →
    Repeats (nextItem (Rules.upTo n) ctx) (.scan total (p.tailChars ++ rest)) (p.tailTrees start)
      (.scan total rest)

/-- Each layer is read by its own rule. -/
def Reads : {l : Layer} → Phrase l → Prop
  | .chain, p => ReadsChain p
  | .operand, p => ReadsOperand p
  | .compound, p => ReadsSingle p fun start => p.tree start
  | .single, p => ReadsSingle p fun start => p.tree start
  | .list, p => ReadsList p

variable {l : Layer} {object : Phrase .chain} {n total : Nat} {ctx : Context}
  {item : Phrase .single}

lemma length_pos (p : Phrase l) : 0 < p.chars.length := by
  induction p with
  | link _ ih | simple _ ih | complex _ ih | last _ ih => exact ih
  | this | name | number => exact Nat.succ_pos _
  | _ =>
    simp only [chars, length_append, length_cons]
    omega

lemma Stands.deeper {p : Phrase l} {slack start rest} (h : p.Stands n slack ctx total start rest)
    (k : Nat) (hk : k ≤ 8) : ∃ m, n = m + k := by
  have hlength := p.length_pos
  have hdeep := h.deep
  exact ⟨n - k, by omega⟩

lemma Stands.part {l' : Layer} {p : Phrase l} {q : Phrase l'} {n' slack slack' : Nat}
    {ctx' : Context} {start start' : Nat} {rest : List Char}
    (h : p.Stands n slack ctx total start rest) (before after : List Char)
    (hplain : ctx'.inDecorator = false) (hends : follows l' (after ++ rest) = true)
    (hpart : p.chars = before ++ (q.chars ++ after) ∧ start' = start + before.length ∧
      n + slack' ≤ n' + slack + 8 * (before.length + after.length)) :
    q.Stands n' slack' ctx' total start' (after ++ rest) := by
  obtain ⟨hchars, hstart, hdeep⟩ := hpart
  have hplace := h.place
  have hwhole := h.deep
  rw [hchars] at hplace hwhole
  simp only [length_append] at hplace hwhole
  refine ⟨by omega, hplain, hends, ?_⟩
  rw [length_append, length_append]
  omega

lemma kind_ne_mark (p : Phrase l) (total : Nat) {rest} (h : follows l rest = true) (m)
    (hm : .mark m ∉ startKinds l) : (scan total (p.chars ++ rest)).token.kind ≠ .mark m := by
  obtain ⟨kind, hkind, text, left, hscan⟩ := p.scan_chars total h
  rw [hscan]
  rintro rfl
  exact hm hkind

lemma readsChain_of_primary {p : Phrase .chain}
    (h : ∀ {n ctx total start rest}, p.Stands (n + 1) 0 ctx total start rest →
      (primary (Rules.upTo n) ctx).run (.scan total (p.chars ++ rest)) =
        some (p.tree start, .scan total rest)) :
    ReadsChain p := by
  intro n ctx total start rest o hstands hextends
  obtain ⟨m, rfl⟩ := hstands.deeper 1 (by decide)
  have hprimary : ((Rules.upTo (m + 1)).primary ctx).run (.scan total (p.chars ++ rest)) =
      some (p.tree start, .scan total rest) := h hstands
  rw [leftHand, bind_run hprimary]
  exact hextends.run

lemma this_reads : ReadsChain this := by
  refine readsChain_of_primary fun {n ctx total start rest} hstands => ?_
  have hplace := hstands.place
  have hstart : total - (thisChars ++ rest).length = start := by
    rw [hplace]
    exact Nat.add_sub_cancel ..
  rw [chars, scan_this total hstands.ends, hstart]
  simp [primary, tree]

lemma name_reads (v : Variable) : ReadsChain (name v) := by
  refine readsChain_of_primary fun {n ctx total start rest} hstands => ?_
  rw [chars, scan_variable total v hstands.ends]
  simp [primary, tree]

lemma text_reads (content : PlainText) : ReadsChain (text content) := by
  refine readsChain_of_primary fun {n ctx total start rest} hstands => ?_
  rw [chars, cons_append, append_assoc, singleton_append, scan_plainText]
  simp [primary, tree]

lemma isInstantiation_tree (p : Phrase .chain) (start : Nat) :
    isInstantiation (p.tree start) = false := by
  cases p <;> rfl

lemma isWord_kind (w : Word) : w.kind.isWord = true ∧ w.kind ≠ .privateName := by
  unfold Word.kind
  cases Keyword.ofSpelling? w.spelling with
  | some | none => exact ⟨rfl, nofun⟩

lemma readsChain_append {p : Phrase .chain} (access : List Char) (ih : ReadsChain object)
    (hchars : p.chars = object.chars ++ access) (hends : ∀ rest, endsWord (access ++ rest) = true)
    (h : ∀ {n ctx total start rest o}, p.Stands n 0 ctx total start rest →
      Extends (Rules.upTo n) ctx (p.tree start) (.scan total rest) o →
      Extends (Rules.upTo n) ctx (object.tree start) (.scan total (access ++ rest)) o) :
    ReadsChain p := by
  intro n ctx total start rest o hstands hextends
  have hdeep := hstands.deep
  have hplace := hstands.place
  rw [hchars, length_append] at hdeep
  rw [hchars, append_assoc] at hplace ⊢
  exact ih ⟨by omega, hstands.plain, hends rest, hplace⟩ (h hstands hextends)

lemma member_reads (property : Word) (ih : ReadsChain object) :
    ReadsChain (member object property) := by
  refine readsChain_append ('.' :: property.chars) ih rfl (fun _ => rfl) ?_
  intro n ctx total start rest o hstands hextends
  have hstep : (memberStep (Rules.upTo n) ctx true ⟨object.tree start, false⟩).run
      (.scan total ('.' :: (property.chars ++ rest))) =
      some (some ⟨.member (object.tree start) property.spelling, false⟩, .scan total rest) := by
    simp [memberStep, scan_dot, scan_word _ _ hstands.ends, memberName, isInstantiation_tree,
      wordName, isWord_kind]
  refine .step hstep ?_ hextends
  have hroom := room_scan_le total rest
  rw [cons_append, scan_dot, room_atMark, length_append]
  omega

lemma nonNull_reads (ih : ReadsChain object) :
    ReadsChain (nonNull object) := by
  refine readsChain_append ['!'] ih rfl (fun _ => rfl) ?_
  intro n ctx total start rest o hstands hextends
  rw [singleton_append, scan_bang total hstands.ends]
  refine .step ?_ ?_ hextends
  · simp [memberStep, Phrase.tree]
  · exact Nat.lt_succ_of_le (room_scan_le total rest)

lemma ReadsSingle.back {p : Phrase l} {tree} (h : ReadsSingle p tree) (returnType : Bool)
    {start rest} (hstands : p.Stands n 4 ctx total start rest)
    (hends : endsSingle (scan total rest).token.kind = true) :
    ((Rules.upTo n).assignment ctx returnType).run (.scan total (p.chars ++ rest)) =
      some (tree start, .scan total rest) := by
  obtain ⟨m, rfl⟩ := hstands.deeper 1 (by decide)
  have hdeep := hstands.deep
  exact h ⟨by omega, hstands.plain, hstands.ends, hstands.place⟩ hends

namespace ReadsList

variable {p : Phrase .list} {n : Nat} {ctx : Context} {total start : Nat} {rest : List Char}

lemma first_run (h : p.head.Reads) (hstands : p.Stands n 4 ctx total start rest)
    (hends : endsSingle (scan total rest).token.kind = true) :
    ((Rules.upTo n).assignment ctx true).run (.scan total (p.chars ++ rest)) =
      some (p.head.tree start, .scan total (p.tailChars ++ rest)) := by
  have hchars := p.chars_eq_head
  have hhead : p.head.Stands n 4 ctx total start (p.tailChars ++ rest) := by
    refine hstands.part [] _ hstands.plain ?_ ⟨hchars, by simp +arith⟩
    cases p with
    | last item => exact hstands.ends
    | more item others => rfl
  rw [hchars, append_assoc]
  refine h.back true hhead ?_
  cases p with
  | last item => exact hends
  | more item others => rfl

lemma argument_run (h : p.head.Reads) (hstands : p.Stands n 4 ctx total start rest)
    (hends : endsSingle (scan total rest).token.kind = true) :
    (argument (Rules.upTo n) ctx).run (.scan total (p.chars ++ rest)) =
      some (p.head.tree start, .scan total (p.tailChars ++ rest)) := by
  have hfirst := first_run h hstands hends
  have hspread := p.kind_ne_mark total hstands.ends .ellipsis (by decide)
  simp [argument, eat, hspread, hfirst]

lemma items_run (h : ReadsList p) {o} (hstands : p.Stands n 4 ctx total start rest)
    (hends : endsSingle (scan total rest).token.kind = true)
    (hrest : Lists .rightParen (argument (Rules.upTo n) ctx) (.scan total rest) o) :
    (list .rightParen (argument (Rules.upTo n) ctx)).run (.scan total (p.chars ++ rest)) =
      o.map fun r => ((p.tree start ++ r.1, false), r.2) := by
  have hclose := p.kind_ne_mark total hstands.ends .rightParen (by decide)
  rw [Lists.run hclose (argument_run h.head hstands hends) (h.arguments hstands hends hrest),
    tree_eq_head]
  cases o <;> rfl

lemma arguments_run (h : ReadsList p)
    (hstands : p.Stands n 4 ctx.inBrackets total start (')' :: rest)) (start' : Nat) :
    (Rule.arguments (Rules.upTo n) ctx).run
      (.atToken total start' (.mark .leftParen) "" (p.chars ++ ')' :: rest)) =
      some (p.tree start, .scan total rest) := by
  have hkind : (scan total (')' :: rest)).token.kind = .mark .rightParen := by
    rw [scan_rightParen, atToken_kind]
  have hlist := h.items_run hstands (by rw [hkind]; rfl) (.stop hkind)
  rw [scan_rightParen] at hlist
  rw [Rule.arguments, bind_run expect_atToken]
  refine (bind_run hlist).trans ?_
  rw [bind_run expect_atToken, append_nil]
  rfl

lemma arguments_fail (h : ReadsList p) (hstands : p.Stands n 4 ctx.inBrackets total start rest)
    (hends : endsSingle (scan total rest).token.kind = true)
    (hparen : (scan total rest).token.kind ≠ .mark .rightParen)
    (hcomma : (scan total rest).token.kind ≠ .mark .comma) (start' : Nat) :
    (Rule.arguments (Rules.upTo n) ctx).run
      (.atToken total start' (.mark .leftParen) "" (p.chars ++ rest)) = none := by
  have hlist := h.items_run hstands hends (.fail hparen hcomma)
  rw [Rule.arguments, bind_run expect_atToken, StateT.run_bind]
  exact congrArg (Option.bind · _) hlist

lemma expression_run (h : ReadsList p)
    (hstands : p.Stands n 4 { ctx with inDecorator := false } total start rest)
    (hends : endsSingle (scan total rest).token.kind = true)
    (hcomma : (scan total rest).token.kind ≠ .mark .comma) :
    (expression (Rules.upTo n) ctx).run (.scan total (p.chars ++ rest)) =
      some (tree.sequence (p.tree start), .scan total rest) := by
  have hfirst := first_run h.head hstands hends
  have hothers := (h.sequence hstands hends hcomma).run
  rw [expression, bind_run hfirst]
  refine (bind_run hothers).trans ?_
  rw [pure_run, tree_eq_head]
  cases p.tailTrees start with
  | nil | cons => rfl

end ReadsList

lemma last_reads (ih : item.Reads) : ReadsList (last item) where
  head := ih
  arguments {_ _ _ _ _ o} _ _ hrest := by
    cases o <;> exact hrest
  sequence {_ _ _ _ _} _ _ hcomma := by
    refine .stop ?_
    simp [nextItem, eat, tailChars, hcomma]

lemma more_stands {others : Phrase .list} {start : Nat} {rest : List Char}
    (h : (more item others).Stands n 4 ctx total start rest) :
    others.Stands n 4 ctx total (start + item.chars.length + 2) rest := by
  exact h.part (item.chars ++ [',', ' ']) [] h.plain h.ends (by simp +arith [chars])

lemma room_tailChars_le (p : Phrase .list) (total : Nat) (rest : List Char) :
    room (.scan total (p.tailChars ++ rest)) ≤ (p.chars ++ rest).length := by
  have hroom := room_scan_le total (p.tailChars ++ rest)
  have hlength := congrArg List.length p.chars_eq_head
  simp only [length_append] at hroom hlength ⊢
  omega

lemma more_reads {others} (hitem : item.Reads) (ih : ReadsList others) :
    ReadsList (more item others) where
  head := hitem
  arguments {n ctx total start rest o} hstands hends hrest := by
    have hothers := more_stands hstands
    have hroom := others.room_tailChars_le total rest
    have hclose : (scan total (' ' :: others.chars ++ rest)).token.kind ≠
        .mark .rightParen :=
      others.kind_ne_mark total hothers.ends _ (by decide)
    have hfirst : (argument (Rules.upTo n) ctx).run (.scan total (' ' :: others.chars ++ rest)) =
        some (others.head.tree (start + item.chars.length + 2), .scan total
          (others.tailChars ++ rest)) :=
      ReadsList.argument_run ih.head hothers hends
    have hmark : Mark.rightParen ≠ .comma := nofun
    rw [tailTrees, tree_eq_head, tailChars, cons_append, scan_comma]
    cases o <;> exact .next hmark hclose hfirst (hroom.trans (Nat.le_succ _))
      (ih.arguments hothers hends hrest)
  sequence {n ctx total start rest} hstands hends hcomma := by
    have hothers := more_stands hstands
    have hroom := others.room_tailChars_le total rest
    have hfirst := ReadsList.first_run ih.head hothers hends
    rw [tailTrees, tree_eq_head, tailChars, cons_append, cons_append, scan_comma]
    refine .next ?_ ?_ (ih.sequence hothers hends hcomma)
    · simp [nextItem, eat, scan_space, hfirst]
    · rw [room_atMark, length_cons]
      omega

lemma invoke_reads {callee} (ih : ReadsChain callee) : ReadsChain (invoke callee) := by
  refine readsChain_append ['(', ')'] ih rfl (fun _ => rfl) ?_
  intro n ctx total start rest o hstands hextends
  have hroom := room_scan_le total rest
  have hargs : ∀ start', (arguments (Rules.upTo n) ctx).run
      (.atToken total start' (.mark .leftParen) "" (')' :: rest)) = some ([], .scan total rest) := by
    simp [arguments, list]
  rw [cons_append, singleton_append, scan_leftParen]
  refine .call (hargs _) ?_ hextends
  rw [length_cons]
  omega

lemma call_reads {callee : Phrase .chain} {arguments : Phrase .list} (ih : ReadsChain callee)
    (hargs : ReadsList arguments) : ReadsChain (call callee arguments) := by
  refine readsChain_append ('(' :: (arguments.chars ++ [')'])) ih rfl (fun _ => rfl) ?_
  intro n ctx total start rest o hstands hextends
  have hstand : arguments.Stands n 4 ctx.inBrackets total (start + callee.chars.length + 1)
      (')' :: rest) :=
    hstands.part (callee.chars ++ ['(']) [')'] rfl rfl (by simp +arith [chars])
  have hroom := room_scan_le total rest
  rw [cons_append, append_assoc, singleton_append, scan_leftParen]
  refine .call (hargs.arguments_run hstand _) ?_ hextends
  simp only [length_append, length_cons]
  omega

lemma index_reads {key : Phrase .list} (ih : ReadsChain object) (hkey : ReadsList key) :
    ReadsChain (index object key) := by
  refine readsChain_append ('[' :: (key.chars ++ [']'])) ih rfl (fun _ => rfl) ?_
  intro n ctx total start rest o hstands hextends
  have hplain := hstands.plain
  obtain ⟨m, rfl⟩ := hstands.deeper 1 (by decide)
  have hstand : key.Stands m 4 { ctx.inBrackets with inDecorator := false } total
      (start + object.chars.length + 1) (']' :: rest) :=
    hstands.part (object.chars ++ ['[']) [']'] rfl rfl (by simp +arith [chars])
  have hkeys : ((Rules.upTo (m + 1)).expression ctx.inBrackets).run
      (.scan total (key.chars ++ ']' :: rest)) =
      some (tree.sequence (key.tree (start + object.chars.length + 1)), .scan total (']' :: rest)) :=
    hkey.expression_run hstand (by simp [endsSingle]) (by simp)
  rw [scan_rightBracket] at hkeys
  have hroom := room_scan_le total rest
  rw [cons_append, append_assoc, singleton_append, scan_leftBracket]
  refine .step ?_ ?_ hextends
  · simp [memberStep, memberIndex, hplain, hkeys, tree]
  · rw [room_atMark]
    simp only [length_append, length_cons]
    omega

lemma construction_run (type : Variable) {m : Nat} {left : List Char}
    {o : Option (List Tree × Cursor)} (h : ∀ start', (arguments (Rules.upTo (m + 1)) ctx).run
      (.atToken total start' (.mark .leftParen) "" left) = o) :
    (primary (Rules.upTo (m + 1)) ctx).run
      (.scan total ('n' :: 'e' :: 'w' :: ' ' :: (type.chars ++ '(' :: left))) =
      o.map fun r => (.node .new (.name type.spelling :: r.1), r.2) := by
  have hname : ((Rules.upTo (m + 1)).primary ctx).run (.scan total (type.chars ++ '(' :: left)) =
      some (.name type.spelling, .scan total ('(' :: left)) := by
    show (primary (Rules.upTo m) ctx).run _ = _
    rw [scan_variable total type rfl]
    simp [primary]
  have hdot : (scan total (type.chars ++ '(' :: left)).token.kind ≠ .mark .dot := by
    rw [scan_variable total type rfl]
    nofun
  have hrest : ∀ start', (memberRest (Rules.upTo (m + 1)) ctx false ⟨.name type.spelling, false⟩).run
      (.atToken total start' (.mark .leftParen) "" left) =
      some (⟨.name type.spelling, false⟩, .atToken total start' (.mark .leftParen) "" left) :=
    fun start' => (Iterates.stop (by simp [memberStep])).run
  rw [scan_leftParen] at hname
  rw [scan_new]
  cases o with
  | _ =>
    simp [primary, construction, expectWord, eatWord, eat, scan_space, hdot, hname, hrest, h]

lemma construct_reads (type : Variable) {arguments : Phrase .list}
    (hargs : ReadsList arguments) : ReadsChain (construct type arguments) := by
  refine readsChain_of_primary fun {n ctx total start rest} hstands => ?_
  obtain ⟨m, hm⟩ := hstands.deeper 2 (by decide)
  obtain rfl := Nat.succ.inj hm
  have hstand : arguments.Stands (m + 1) 4 ctx.inBrackets total
      (start + 4 + type.chars.length + 1) (')' :: rest) :=
    hstands.part ('n' :: 'e' :: 'w' :: ' ' :: (type.chars ++ ['('])) [')'] rfl rfl
      (by simp +arith [chars])
  simp only [chars, cons_append, append_assoc, nil_append]
  exact construction_run type (hargs.arguments_run hstand)

lemma paren_reads {inner : Phrase .compound} (ih : inner.Reads) : ReadsChain (paren inner) := by
  refine readsChain_of_primary fun {n ctx total start rest} hstands => ?_
  have hstand : inner.Stands n 4 ctx.inBrackets total (start + 1) (')' :: rest) :=
    hstands.part ['('] [')'] rfl rfl (by simp +arith [chars])
  have hclose := inner.kind_ne_mark total hstand.ends .rightParen (by decide)
  have hlist : (list .rightParen ((Rules.upTo n).assignment ctx.inBrackets true)).run
      (.scan total (inner.chars ++ ')' :: rest)) =
      some (([inner.tree (start + 1)], false), .scan total (')' :: rest)) :=
    Lists.run hclose (ih.back true hstand (by simp [endsSingle]))
      (.stop (congrArg (·.token.kind) (scan_rightParen total rest)))
  rw [scan_rightParen] at hlist
  rw [chars, cons_append, append_assoc, singleton_append, scan_leftParen]
  simp [primary, parenthesized, hlist, tree]

lemma readsOperand_of_leftHand {p : Phrase .operand}
    (h : ∀ {n ctx total start rest}, p.Stands n 0 ctx total start rest →
      endsChain (scan total rest).token.kind = true →
      (scan total (p.chars ++ rest)).token.kind ∈ .number :: startKinds .chain ∧
      (leftHand (Rules.upTo n) ctx).run (.scan total (p.chars ++ rest)) =
        some (p.tree start, .scan total rest)) : ReadsOperand p := by
  intro n ctx total start rest hstands hends
  obtain ⟨m, rfl⟩ := hstands.deeper 1 (by decide)
  have hdeep := hstands.deep
  obtain ⟨hkind, hrun⟩ := h (n := m) ⟨by omega, hstands.plain, hstands.ends, hstands.place⟩ hends
  exact unary_run hkind hrun hends

lemma link_reads {chain} (ih : ReadsChain chain) : ReadsOperand (link chain) := by
  refine readsOperand_of_leftHand fun {n ctx total start rest} hstands hends => ⟨?_, ?_⟩
  · obtain ⟨kind, hkind, text, left, hscan⟩ :=
      chain.scan_chars total (endsWord_of_endsOperand hstands.ends)
    rw [chars, hscan]
    exact mem_cons_of_mem _ hkind
  · exact ih ⟨hstands.deep, hstands.plain, endsWord_of_endsOperand hstands.ends, hstands.place⟩
      (.stop hends)

lemma number_reads (value : Numeral) : ReadsOperand (number value) := by
  refine readsOperand_of_leftHand fun {n ctx total start rest} hstands hends => ⟨?_, ?_⟩
  · rw [chars, scan_numeral total value hstands.ends]
    exact mem_cons_self
  · obtain ⟨m, rfl⟩ := hstands.deeper 1 (by decide)
    have hprimary : ((Rules.upTo (m + 1)).primary ctx).run
        (.scan total ((number value).chars ++ rest)) =
        some (.node .literal [], .scan total rest) := by
      show (primary (Rules.upTo m) ctx).run _ = _
      rw [chars, scan_numeral total value hstands.ends]
      simp [primary]
    rw [leftHand, bind_run hprimary]
    exact (Extends.stop hends).run

lemma prefixed_reads (sign : PrefixSign) {operand : Phrase .operand} (ih : ReadsOperand operand) :
    ReadsOperand (prefixed sign operand) := by
  intro n ctx total start rest hstands hends
  obtain ⟨m, rfl⟩ := hstands.deeper 1 (by decide)
  have hstand : operand.Stands m 1 ctx total (start + sign.mark.chars.length + 1) rest :=
    hstands.part (sign.mark.chars ++ [' ']) [] hstands.plain hstands.ends (by simp +arith [chars])
  have hoperand : ((Rules.upTo (m + 1)).unary ctx).run (.scan total (operand.chars ++ rest)) =
      some (operand.tree (start + sign.mark.chars.length + 1), .scan total rest) := ih hstand hends
  rw [chars, append_assoc, cons_append, scan_prefixSign]
  cases sign <;> simpa [unary, scan_space, tree, PrefixSign.mark] using hoperand

lemma arrowGuess_chain (total : Nat) : (p : Phrase .chain) → {rest : List Char} →
    endsWord rest = true → arrowGuess.run (.scan total (p.chars ++ rest)) =
      some (.no, .scan total (p.chars ++ rest))
  | this, rest, h => by
    rw [chars, scan_this total h]
    exact arrowGuess_other (by decide)
  | name v, rest, h => by
    rw [chars, scan_variable total v h]
    exact arrowGuess_other (by decide)
  | text content, rest, h => by
    rw [chars, cons_append, append_assoc, singleton_append, scan_plainText]
    exact arrowGuess_other (by decide)
  | construct type arguments, rest, h => by
    simp only [chars, cons_append, scan_new]
    exact arrowGuess_other (by decide)
  | paren inner, rest, h => by
    rw [chars, cons_append, append_assoc, singleton_append, scan_leftParen]
    have hends : follows .compound (')' :: rest) = true := rfl
    obtain ⟨kind, hkind, text, left, hscan⟩ := inner.scan_chars total hends
    refine arrowGuess_paren hscan hkind fun hword => ?_
    have hafter := inner.afterWord total hends (by rwa [hscan])
    rwa [hscan, next_atToken] at hafter
  | member object _, rest, _ | nonNull object, rest, _ | index object _, rest, _
  | invoke object, rest, _ | call object _, rest, _ => by
    rw [chars, append_assoc]
    exact arrowGuess_chain total object rfl

lemma arrowGuess_operand (p : Phrase .operand) (total : Nat) {rest} (h : endsOperand rest = true) :
    arrowGuess.run (.scan total (p.chars ++ rest)) =
      some (.no, .scan total (p.chars ++ rest)) := by
  cases p with
  | link chain => exact arrowGuess_chain total chain (endsWord_of_endsOperand h)
  | number value =>
    rw [chars, scan_numeral total value h]
    exact arrowGuess_other (by decide)
  | prefixed sign operand =>
    rw [chars, append_assoc, cons_append, scan_prefixSign]
    refine arrowGuess_other ?_
    cases sign <;> decide

namespace ReadsOperand

variable {p : Phrase .operand} {n : Nat} {ctx : Context} {total start : Nat} {rest : List Char}
  {tree : Tree} {c : Cursor} {o : Option (Tree × Cursor)}

lemma binary_run (h : ReadsOperand p) {floor} (hstands : p.Stands n 2 ctx total start rest)
    (hends : endsChain (scan total rest).token.kind = true)
    (hrest : Iterates (binaryStep (Rules.upTo n) ctx floor) (p.tree start) (.scan total rest) o) :
    (Rule.binary (Rules.upTo n) ctx floor).run (.scan total (p.chars ++ rest)) = o := by
  obtain ⟨m, rfl⟩ := hstands.deeper 1 (by decide)
  have hdeep := hstands.deep
  refine Rule.binary_run ?_ (h ⟨by omega, hstands.plain, hstands.ends, hstands.place⟩ hends) hrest
  obtain ⟨kind, hkind, text, left, hscan⟩ := p.scan_chars total hstands.ends
  rw [hscan]
  rintro rfl
  revert hkind
  decide

lemma assignment_run (h : ReadsOperand p) {returnType : Bool}
    (hstands : p.Stands (n + 1) 3 ctx total start rest)
    (hends : endsChain (scan total rest).token.kind = true)
    (hrest : Iterates (binaryStep (Rules.upTo n) ctx 0) (p.tree start) (.scan total rest)
      (some (tree, c))) :
    (assignment (Rules.upTo (n + 1)) ctx returnType).run (.scan total (p.chars ++ rest)) =
      (afterLeft (Rules.upTo (n + 1)) ctx returnType tree).run c := by
  have hdeep := hstands.deep
  have hbinary : ((Rules.upTo (n + 1)).binary ctx 0).run (.scan total (p.chars ++ rest)) =
      some (tree, c) :=
    h.binary_run ⟨by omega, hstands.plain, hstands.ends, hstands.place⟩ hends hrest
  rw [assignment_eq ?_ (arrowGuess_operand p total hstands.ends), bind_run hbinary]
  obtain ⟨kind, hkind, text, left, hscan⟩ := p.scan_chars total hstands.ends
  have hnone : ∀ k ∈ startKinds .operand, k ∉ [.keyword .yieldKw, .keyword .asyncKw] := by decide
  rw [hscan]
  exact hnone kind hkind

lemma assignment_stop (h : ReadsOperand p) {returnType start' k text left}
    (hstands : p.Stands (n + 1) 3 ctx total start rest)
    (hscan : scan total rest = .atToken total start' k text left) (hends : endsChain k = true)
    (hgreater : k ≠ .mark .greater) (hlevel : level? k = none) :
    (assignment (Rules.upTo (n + 1)) ctx returnType).run (.scan total (p.chars ++ rest)) =
      (afterLeft (Rules.upTo (n + 1)) ctx returnType (p.tree start)).run
        (.atToken total start' k text left) := by
  rw [← hscan]
  have hkind : (scan total rest).token.kind = k := by rw [hscan, atToken_kind]
  rw [← hkind] at hends hgreater hlevel
  exact h.assignment_run hstands hends (.stop (binaryStep_stop hgreater hlevel))

end ReadsOperand

lemma simple_reads {operand} (ih : ReadsOperand operand) :
    ReadsSingle (simple operand) fun start => operand.tree start := by
  intro n ctx returnType total start rest hstands hends
  obtain ⟨m, rfl⟩ := hstands.deeper 1 (by decide)
  have hstand : operand.Stands (m + 1) 3 ctx total start rest :=
    ⟨hstands.deep, hstands.plain, hstands.ends, hstands.place⟩
  rw [chars, ih.assignment_run hstand (endsChain_of_endsSingle hends) (.stop (binaryStep_end hends))]
  exact afterLeft_end hends

lemma isLogical_tree (p : Phrase .operand) (start : Nat) : isLogical (p.tree start) = false := by
  cases p with
  | link chain => cases chain <;> rfl
  | number | prefixed => rfl

lemma binary_reads {left right : Phrase .operand} (sign : InfixSign) (hleft : ReadsOperand left)
    (hright : ReadsOperand right) : (binary left sign right).Reads := by
  intro n ctx returnType total start rest hstands hends
  obtain ⟨m, rfl⟩ := hstands.deeper 2 (by decide)
  have hfirst : left.Stands (m + 2) 3 ctx total start
      (' ' :: (sign.mark.chars ++ ' ' :: right.chars) ++ rest) :=
    hstands.part [] _ hstands.plain rfl (by simp +arith [chars])
  have hsecond : right.Stands m 2 ctx total
      (start + left.chars.length + 1 + sign.mark.chars.length + 1) rest :=
    hstands.part (left.chars ++ ' ' :: (sign.mark.chars ++ [' '])) [] hstands.plain hstands.ends
      (by simp +arith [chars])
  have hsign := scan_infixSign total sign (right.chars ++ rest)
  rw [← cons_append, ← append_assoc] at hsign
  have hchain : endsChain (.mark sign.mark) = true := by cases sign <;> rfl
  have hroom := room_scan_le total rest
  rw [chars, append_assoc]
  refine (hleft.assignment_run hfirst ?_ ?_).trans (afterLeft_end hends)
  · rw [cons_append, scan_space, hsign]
    exact hchain
  · rw [cons_append, scan_space, hsign]
    refine .next (binaryStep_sign sign (isLogical_tree left start) (isLogical_tree right _)
      fun level => hright.binary_run hsecond (endsChain_of_endsSingle hends)
        (.stop (binaryStep_end hends))) ?_ (.stop (binaryStep_end hends))
    rw [room_atMark]
    simp only [length_append, length_cons]
    omega

lemma conditional_reads {test : Phrase .operand} {yes no : Phrase .single}
    (htest : ReadsOperand test) (hyes : yes.Reads) (hno : no.Reads) :
    (conditional test yes no).Reads := by
  intro n ctx returnType total start rest hstands hends
  obtain ⟨m, rfl⟩ := hstands.deeper 1 (by decide)
  have hfirst : test.Stands (m + 1) 3 ctx total start
      (' ' :: '?' :: ' ' :: (yes.chars ++ ' ' :: ':' :: ' ' :: no.chars) ++ rest) :=
    hstands.part [] _ hstands.plain rfl (by simp +arith [chars])
  have hsecond : yes.Stands (m + 1) 4 { ctx with allowsIn := true } total
      (start + test.chars.length + 3) (' ' :: ':' :: ' ' :: no.chars ++ rest) :=
    hstands.part (test.chars ++ [' ', '?', ' ']) _ hstands.plain rfl (by simp +arith [chars])
  have hthird : no.Stands (m + 1) 4 ctx total
      (start + test.chars.length + 3 + yes.chars.length + 3) rest :=
    hstands.part (test.chars ++ ' ' :: '?' :: ' ' :: (yes.chars ++ [' ', ':', ' '])) []
      hstands.plain hstands.ends (by simp +arith [chars])
  have hcolon : scan total (' ' :: ':' :: ' ' :: no.chars ++ rest) =
      .atToken total _ (.mark .colon) "" (' ' :: no.chars ++ rest) :=
    scan_colon total (' ' :: no.chars ++ rest)
  have hquestion : scan total
      (' ' :: '?' :: ' ' :: (yes.chars ++ ' ' :: ':' :: ' ' :: no.chars) ++ rest) =
      .atToken total _ (.mark .question) ""
        (' ' :: (yes.chars ++ ' ' :: ':' :: ' ' :: no.chars) ++ rest) :=
    scan_question total _
  have hyes' := hyes.back false hsecond (by rw [hcolon]; rfl)
  rw [hcolon, ← append_assoc] at hyes'
  have hno' := hno.back returnType hthird hends
  rw [chars, append_assoc, htest.assignment_stop hfirst hquestion rfl (by decide) rfl]
  exact afterLeft_question hyes' hno'

lemma assign_reads (property : Word) {value : Phrase .single} (hobject : ReadsChain object)
    (hvalue : value.Reads) : (assign object property value).Reads := by
  intro n ctx returnType total start rest hstands hends
  obtain ⟨m, rfl⟩ := hstands.deeper 1 (by decide)
  have hfirst : (link (member object property)).Stands (m + 1) 3 ctx total start
      (' ' :: '=' :: ' ' :: value.chars ++ rest) :=
    hstands.part [] _ hstands.plain rfl (by simp +arith [chars])
  have hsecond : value.Stands (m + 1) 4 ctx total
      (start + object.chars.length + 1 + property.chars.length + 3) rest :=
    hstands.part (object.chars ++ '.' :: (property.chars ++ [' ', '=', ' '])) [] hstands.plain
      hstands.ends (by simp +arith [chars])
  have hassign : scan total (' ' :: '=' :: ' ' :: value.chars ++ rest) =
      .atToken total _ (.mark .assign) "" (' ' :: value.chars ++ rest) :=
    scan_assign total _
  have htarget : (link (member object property)).chars ++
      (' ' :: '=' :: ' ' :: value.chars ++ rest) = (assign object property value).chars ++ rest := by
    simp [chars]
  have hleft : ReadsOperand (link (member object property)) :=
    link_reads (member_reads property hobject)
  rw [← htarget, hleft.assignment_stop hfirst hassign rfl (by decide) rfl]
  exact afterLeft_assign rfl (hvalue.back returnType hsecond hends)

lemma arrowOf_reads (parameter : Variable) {body : Phrase .single} (ih : body.Reads) :
    (arrowOf parameter body).Reads := by
  intro n ctx returnType total start rest hstands hends
  obtain ⟨m, rfl⟩ := hstands.deeper 1 (by decide)
  have hfirst : (link (name parameter)).Stands (m + 1) 3 ctx total start
      (' ' :: '=' :: '>' :: ' ' :: body.chars ++ rest) :=
    hstands.part [] _ hstands.plain rfl (by simp +arith [chars])
  have hsecond : body.Stands (m + 1) 4 { ctx with inAsync := false, inGenerator := false } total
      (start + parameter.chars.length + 4) rest :=
    hstands.part (parameter.chars ++ [' ', '=', '>', ' ']) [] hstands.plain hstands.ends
      (by simp +arith [chars])
  have harrow : scan total (' ' :: '=' :: '>' :: ' ' :: body.chars ++ rest) =
      .atToken total _ (.mark .arrow) "" (' ' :: body.chars ++ rest) :=
    scan_arrow total _
  have hbrace := body.kind_ne_mark total hstands.ends .leftBrace (by decide)
  have hparameter : (link (name parameter)).chars ++
      (' ' :: '=' :: '>' :: ' ' :: body.chars ++ rest) = (arrowOf parameter body).chars ++ rest := by
    simp [chars]
  have hleft : ReadsOperand (link (name parameter)) := link_reads (name_reads parameter)
  rw [← hparameter, hleft.assignment_stop hfirst harrow rfl (by decide) rfl]
  exact afterLeft_arrow hbrace (ih.back returnType hsecond hends)

lemma arrow_reads {body : Phrase .single} (ih : body.Reads) : (arrow body).Reads := by
  intro n ctx returnType total start rest hstands hends
  obtain ⟨m, rfl⟩ := hstands.deeper 1 (by decide)
  have hstand : body.Stands (m + 1) 4 { ctx with inAsync := false, inGenerator := false } total
      (start + 6) rest :=
    hstands.part ['(', ')', ' ', '=', '>', ' '] [] hstands.plain hstands.ends
      (by simp +arith [chars])
  have hbrace := body.kind_ne_mark total hstands.ends .leftBrace (by decide)
  simp only [chars, cons_append, scan_leftParen]
  exact assignment_arrow hbrace (ih.back true hstand hends)

lemma complex_reads {operation} (ih : operation.Reads) :
    ReadsSingle (complex operation) fun start => operation.tree start :=
  fun hstands hends => ih ⟨hstands.deep, hstands.plain, hstands.ends, hstands.place⟩ hends

lemma reads (p : Phrase l) : p.Reads := by
  induction p with
  | this => exact this_reads
  | name v => exact name_reads v
  | text content => exact text_reads content
  | paren _ ih => exact paren_reads ih
  | member _ property ih => exact member_reads property ih
  | nonNull _ ih => exact nonNull_reads ih
  | index _ _ ih hkey => exact index_reads ih hkey
  | invoke _ ih => exact invoke_reads ih
  | call _ _ ih hargs => exact call_reads ih hargs
  | construct type _ hargs => exact construct_reads type hargs
  | link _ ih => exact link_reads ih
  | number value => exact number_reads value
  | prefixed sign _ ih => exact prefixed_reads sign ih
  | binary _ sign _ hleft hright => exact binary_reads sign hleft hright
  | conditional _ _ _ htest hyes hno => exact conditional_reads htest hyes hno
  | arrow _ ih => exact arrow_reads ih
  | arrowOf parameter _ ih => exact arrowOf_reads parameter ih
  | assign _ property _ hobject hvalue => exact assign_reads property hobject hvalue
  | simple _ ih => exact simple_reads ih
  | complex _ ih => exact complex_reads ih
  | last _ ih => exact last_reads ih
  | more _ _ hitem ih => exact more_reads hitem ih

/-- The characters end an expression that stands before them. -/
structure Closes (rest : List Char) : Prop where
  operand : endsOperand rest = true
  single : ∀ total, endsSingle (Cursor.scan total rest).token.kind = true
  comma : ∀ total, (Cursor.scan total rest).token.kind ≠ .mark .comma
  sound : ∀ total, (Cursor.scan total rest).flawed = false

namespace Closes

lemma nil : Closes [] := ⟨rfl, fun _ => rfl, nofun, fun _ => rfl⟩

lemma mark {d : Char} (hd : d ∈ [')', ']', '}', ';', ':']) (more : List Char) :
    Closes (d :: more) := by
  have hmark : ∀ d ∈ [')', ']', '}', ';', ':'], endsOperand [d] = true ∧
      ∃ m, soleMark? d = some m ∧ endsSingle (.mark m) = true ∧ m ≠ .comma := by
    simp [endsOperand, soleMark?, endsSingle]
  obtain ⟨hends, m, hm, hsingle, hcomma⟩ := hmark d hd
  refine ⟨hends, fun total => ?_, fun total => ?_, fun total => ?_⟩
  all_goals rw [scan_sole total hm]
  · exact hsingle
  · exact fun h => hcomma (Kind.mark.inj h)
  · rfl

end Closes

lemma reading (p : Phrase .list) {rest} (h : Closes rest) :
    Reading (p.chars ++ rest) (tree.sequence (p.tree 0)) (.scan (p.chars ++ rest).length rest) where
  run := by
    have hstands : p.Stands (8 * (p.chars ++ rest).length + 15) 4
        { ({} : Context) with inDecorator := false } (p.chars ++ rest).length 0 rest := by
      refine ⟨?_, rfl, h.operand, (Nat.zero_add _).symm⟩
      rw [length_append]
      omega
    have hlist : ReadsList p := p.reads
    exact hlist.expression_run hstands (h.single _) (h.comma _)
  sound := h.sound _
  complete := isComplete_sequence (p.areComplete_trees 0)

lemma parse?_eq_none {text} (hn : 8 * text.length + 11 = n)
    (hkind : (scan text.length text).token.kind ∈ startKinds .chain)
    (hguess : arrowGuess.run (.scan text.length text) = some (.no, .scan text.length text))
    (h : (leftHand (Rules.upTo n) {}).run (.scan text.length text) = none) :
    parse? text = none := by
  subst hn
  have hfail : (expression (Rules.upTo (8 * text.length + 15)) {}).run (.scan text.length text) =
      none :=
    expression_fail hkind hguess h
  exact congrArg (Option.bind · _) hfail

variable (p : Phrase .list) {rest : List Char}

lemma parse?_call_eq_none (callee : Phrase .chain) (h : Closes rest)
    (hparen : ∀ total, (scan total rest).token.kind ≠ .mark .rightParen) :
    parse? (callee.chars ++ '(' :: (p.chars ++ rest)) = none := by
  have hends : follows .chain ('(' :: (p.chars ++ rest)) = true := rfl
  generalize htext : callee.chars ++ '(' :: (p.chars ++ rest) = text
  have hlength := congrArg List.length htext
  simp only [length_append, length_cons] at hlength
  have hcallee : callee.Stands (8 * text.length + 11) 0 {} text.length 0
      ('(' :: (p.chars ++ rest)) :=
    ⟨by omega, rfl, hends, by rw [htext, Nat.zero_add]⟩
  have hp : p.Stands (8 * text.length + 11) 4 ({} : Context).inBrackets text.length
      (callee.chars.length + 1) rest :=
    ⟨by omega, rfl, h.operand, by rw [length_append]; omega⟩
  have hlist : ReadsList p := p.reads
  have hchain : ReadsChain callee := callee.reads
  obtain ⟨kind, hkind, word, left, hscan⟩ := callee.scan_chars text.length hends
  have hguess : arrowGuess.run (.scan text.length (callee.chars ++ '(' :: (p.chars ++ rest))) = _ :=
    arrowGuess_chain text.length callee rfl
  have hrun : (leftHand (Rules.upTo (8 * text.length + 11)) {}).run
      (.scan text.length (callee.chars ++ '(' :: (p.chars ++ rest))) = none := by
    refine hchain hcallee ?_
    rw [scan_leftParen]
    exact .fail (hlist.arguments_fail hp (h.single _) (hparen _) (h.comma _) _)
  rw [htext] at hscan hguess hrun
  exact parse?_eq_none rfl (by rwa [hscan]) hguess hrun

end Phrase

end SceneView.Script
