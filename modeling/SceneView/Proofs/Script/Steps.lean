import SceneView.Proofs.Script.Phrase
import SceneView.Script.Statement

/-!
# Runs of rules at known tokens

What the rules of the grammar do where the next token is known: the elementary ones pass it, the
steps of a chain or an operation extend it or stop, and a parenthesis is told from the parameters of
an arrow function.
-/

open List

namespace SceneView.Script

namespace Rule

section Runs

variable {α β : Type} {c : Cursor} {total start : Nat} {k : Kind} {text : String}
  {left : List Char}

lemma bind_run {x} {f : α → Rule β} {a c'} (h : x.run c = some (a, c')) :
    (x >>= f).run c = (f a).run c' := by
  rw [StateT.run_bind, h]
  rfl

@[simp]
lemma atToken_kind : (Cursor.atToken total start k text left).token.kind = k := rfl

@[simp]
lemma atToken_token :
    (Cursor.atToken total start k text left).token = ⟨k, start, text, false, false⟩ := rfl

@[simp]
lemma atToken_rest : (Cursor.atToken total start k text left).rest = left := rfl

@[simp]
lemma pure_run (a : α) : (pure a : Rule α).run c = some (a, c) := rfl

@[simp]
lemma failure_run : (failure : Rule α).run c = none := rfl

@[simp]
lemma kind_run : kind.run c = some (c.token.kind, c) := rfl

@[simp]
lemma token_run : token.run c = some (c.token, c) := rfl

@[simp]
lemma onNewLine_run : onNewLine.run c = some (c.token.newline, c) := rfl

@[simp]
lemma bound_run : bound.run c = some (c.rest.length + 2, c) := rfl

@[simp]
lemma atMark_run (m : Mark) : (atMark m).run c = some (c.token.kind == .mark m, c) := rfl

@[simp]
lemma atWord_run (w : Keyword) : (atWord w).run c = some (c.token.kind == .keyword w, c) := rfl

@[simp]
lemma nextIs_run (test : Token → Bool) : (nextIs test).run c = some (test c.next.token, c) := rfl

@[simp]
lemma flawIf_run : (flawIf false).run c = some ((), c) := rfl

@[simp]
lemma lookahead_run (a : α) (x : Rule α) :
    (lookahead a x).run c = some (((x.run c).map (·.1)).getD a, c) := by
  unfold lookahead StateT.run
  dsimp only
  cases x c <;> rfl

@[simp]
lemma advance_atToken :
    advance.run (.atToken total start k text left) = some ((), .scan total left) := by
  cases k with
  | _ => exact congrArg (fun c => some ((), c)) (Cursor.next_atToken ..)

@[simp]
lemma advanceName_atToken :
    advanceName.run (.atToken total start k text left) = some ((), .scan total left) :=
  congrArg (fun c => some ((), c)) (Cursor.next_atToken ..)

@[simp]
lemma expect_atToken {m} :
    (expect m).run (.atToken total start (.mark m) text left) = some ((), .scan total left) := by
  simp [expect, eat]

lemma advance_run (h : ∀ w, c.token.kind ≠ .keyword w) : advance.run c = some ((), c.next) := by
  rw [advance, bind_run token_run]
  split
  · next w hw => exact absurd hw (h w)
  · rfl

end Runs

def room (c : Cursor) : Nat :=
  c.rest.length + if c.token.kind = .finish then 0 else 1

lemma room_le (c : Cursor) : room c ≤ c.rest.length + 1 := by
  unfold room
  split <;> omega

variable {total start floor : Nat} {left : List Char} {tree : Tree} {k : Kind}

lemma room_atMark {m} : room (.atToken total start (.mark m) "" left) = left.length + 1 := rfl

lemma room_scan_le (total : Nat) (cs : List Char) : room (.scan total cs) ≤ cs.length := by
  have hspells := readToken_spells (skipGap .plain false cs).1
  have hgap := (skipGap_suffix .plain false cs).length_le
  have hsuffix := hspells.suffix.length_le
  have hrest : (Cursor.scan total cs).rest = (readToken (skipGap .plain false cs).1).2.2.2 := rfl
  have hkind : (Cursor.scan total cs).token.kind = (readToken (skipGap .plain false cs).1).1 := rfl
  rw [room, hrest, hkind]
  split
  · omega
  · next hfinish =>
    have hshorter := hspells.shorter fun hnil => hfinish (hspells.finish.2 hnil)
    omega

/-- A value is extended step by step until no step applies or one fails, each step taking some
tokens. -/
inductive Iterates {α : Type} (step : α → Rule (Option α)) :
    α → Cursor → Option (α × Cursor) → Prop where
  | stop {a : α} {c : Cursor} : (step a).run c = some (none, c) → Iterates step a c (some (a, c))
  | fail {a : α} {c : Cursor} : (step a).run c = none → Iterates step a c none
  | next {a a' : α} {c c' : Cursor} {o : Option (α × Cursor)} :
      (step a).run c = some (some a', c') → room c' < room c → Iterates step a' c' o →
      Iterates step a c o

namespace Iterates

variable {α : Type} {step : α → Rule (Option α)} {a : α} {c : Cursor} {o : Option (α × Cursor)}

lemma room_le_room (h : Iterates step a c o) : ∀ r ∈ o, room r.2 ≤ room c := by
  induction h with
  | stop _ =>
    rintro r ⟨rfl⟩
    exact Nat.le_refl _
  | fail _ =>
    intro r hr
    cases hr
  | next _ hlt _ ih => exact fun r hr => (ih r hr).trans hlt.le

lemma runUpTo (h : Iterates step a c o) {fuel : Nat} (hfuel : room c < fuel) :
    (iterateUpTo step fuel a).run c = o := by
  induction h generalizing fuel with
  | stop hstep =>
    cases fuel with
    | zero => cases hfuel
    | succ fuel => rw [iterateUpTo, bind_run hstep, pure_run]
  | fail hstep =>
    cases fuel with
    | zero => cases hfuel
    | succ fuel =>
      rw [iterateUpTo, StateT.run_bind, hstep]
      rfl
  | next hstep hlt _ ih =>
    cases fuel with
    | zero => cases hfuel
    | succ fuel =>
      rw [iterateUpTo, bind_run hstep]
      exact ih (by omega)

lemma run (h : Iterates step a c o) : (iterate step a).run c = o := by
  have hroom := room_le c
  rw [iterate, bind_run bound_run]
  exact h.runUpTo (by omega)

end Iterates

/-- Items after commas are read up to the closing mark, or to a token that is neither. -/
inductive Lists {α : Type} (close : Mark) (item : Rule α) :
    Cursor → Option (List α × Cursor) → Prop where
  | stop {c : Cursor} : c.token.kind = .mark close → Lists close item c (some ([], c))
  | fail {c : Cursor} : c.token.kind ≠ .mark close → c.token.kind ≠ .mark .comma →
      Lists close item c none
  | next {total start : Nat} {left : List Char} {a : α} {c' : Cursor}
      {o : Option (List α × Cursor)} : close ≠ .comma →
      (Cursor.scan total left).token.kind ≠ .mark close →
      item.run (.scan total left) = some (a, c') → room c' ≤ left.length → Lists close item c' o →
      Lists close item (.atToken total start (.mark .comma) "" left)
        (o.map fun r => (a :: r.1, r.2))

namespace Lists

variable {α : Type} {item : Rule α} {close : Mark} {a : α} {c c' : Cursor}
  {o : Option (List α × Cursor)}

lemma runUpTo (h : Lists close item c o) {fuel : Nat} (hfuel : room c < fuel) :
    (listRest close item fuel).run c = o.map fun r => ((r.1, false), r.2) := by
  induction h generalizing fuel with
  | stop hclose =>
    cases fuel with
    | zero => cases hfuel
    | succ fuel => simp [listRest, hclose]
  | fail hclose hcomma =>
    cases fuel with
    | zero => cases hfuel
    | succ fuel => simp [listRest, expect, eat, hclose, hcomma]
  | @next _ _ _ _ _ o hcomma hclose hitem hroom _ ih =>
    cases fuel with
    | zero => cases hfuel
    | succ fuel =>
      rw [room_atMark] at hfuel
      have hrest := @ih fuel (by omega)
      cases o <;> simp_all [listRest, hcomma.symm]

lemma run (hclose : c.token.kind ≠ .mark close) (hitem : item.run c = some (a, c'))
    (h : Lists close item c' o) :
    (list close item).run c = o.map fun r => ((a :: r.1, false), r.2) := by
  have hroom := room_le c'
  have hrest := h.runUpTo (show room c' < c'.rest.length + 2 by omega)
  cases o <;> simp [list, hclose, hitem, hrest]

end Lists

/-- A rule is repeated until it answers with nothing. -/
inductive Repeats {α : Type} (step : Rule (Option α)) : Cursor → List α → Cursor → Prop where
  | stop {c : Cursor} : step.run c = some (none, c) → Repeats step c [] c
  | next {c c' d : Cursor} {a : α} {items : List α} : step.run c = some (some a, c') →
      room c' < room c → Repeats step c' items d → Repeats step c (a :: items) d

namespace Repeats

variable {α : Type} {step : Rule (Option α)} {c d : Cursor} {items : List α}

lemma runUpTo (h : Repeats step c items d) {fuel : Nat} (hfuel : room c < fuel) :
    (repeatUpTo step fuel).run c = some (items, d) := by
  induction h generalizing fuel with
  | stop hstep =>
    cases fuel with
    | zero => cases hfuel
    | succ fuel => simp [repeatUpTo, hstep]
  | next hstep hlt _ ih =>
    cases fuel with
    | zero => cases hfuel
    | succ fuel => simp [repeatUpTo, hstep, @ih fuel (by omega)]

lemma run (h : Repeats step c items d) : (many step).run c = some (items, d) := by
  have hroom := room_le c
  rw [many, bind_run bound_run]
  exact h.runUpTo (by omega)

end Repeats

def endsChain : Kind → Bool
  | .mark .dot | .mark .questionDot | .mark .leftBracket | .mark .bang | .mark .less
  | .mark .shiftLeft | .mark .leftParen | .mark .increment | .mark .decrement => false
  | .template _ _ => false
  | _ => true

def endsSingle : Kind → Bool
  | .finish => true
  | .mark .rightParen | .mark .rightBracket | .mark .rightBrace | .mark .semicolon | .mark .colon
  | .mark .comma => true
  | _ => false

variable {R : Rules} {ctx : Context} {c : Cursor}

lemma memberStep_stop {allowsOptional} {chain : Chain} (h : endsChain c.token.kind = true) :
    (memberStep R ctx allowsOptional chain).run c = some (none, c) := by
  rw [memberStep, bind_run kind_run]
  split
  case h_9 => rfl
  all_goals
    next hkind =>
    rw [hkind] at h
    cases h

lemma callStep_stop {chain} (h : endsChain c.token.kind = true) :
    (callStep R ctx chain).run c = some (none, c) := by
  have hoptional : (c.token.kind == .mark .questionDot) = false := by
    refine beq_eq_false_iff_ne.2 fun hkind => ?_
    rw [hkind] at h
    cases h
  have hparen : (c.token.kind == .mark .leftParen) = false := by
    refine beq_eq_false_iff_ne.2 fun hkind => ?_
    rw [hkind] at h
    cases h
  simp [callStep, eat, hoptional, hparen]

lemma binaryStep_stop (hgreater : c.token.kind ≠ .mark .greater) (h : level? c.token.kind = none) :
    (binaryStep R ctx floor tree).run c = some (none, c) := by
  simp [binaryStep, joinGreater, hgreater, h]

lemma endsChain_of_endsSingle (h : endsSingle k = true) : endsChain k = true := by
  unfold endsSingle at h
  split at h
  case h_8 => cases h
  all_goals rfl

lemma binaryStep_end (h : endsSingle c.token.kind = true) :
    (binaryStep R ctx floor tree).run c = some (none, c) := by
  refine binaryStep_stop (fun hkind => ?_) ?_
  · rw [hkind] at h
    cases h
  · generalize c.token.kind = k at h
    unfold endsSingle at h
    split at h
    case h_8 => cases h
    all_goals rfl

/-- A chain is read on from a tree to another, or fails. -/
def Extends (R : Rules) (ctx : Context) (tree : Tree) (c : Cursor) (o : Option (Tree × Cursor)) :
    Prop :=
  ∃ chain d, Iterates (memberStep R ctx true) ⟨tree, false⟩ c (some (chain, d)) ∧
    Iterates (callStep R ctx) chain d (o.map fun r => (⟨r.1, false⟩, r.2))

namespace Extends

variable {tree : Tree} {o : Option (Tree × Cursor)} {total start : Nat} {left : List Char}

lemma run (h : Extends R ctx tree c o) : (callRest R ctx tree).run c = o := by
  obtain ⟨chain, d, hmember, hcall⟩ := h
  rw [callRest, memberRest, bind_run hmember.run, StateT.run_bind, hcall.run]
  cases o <;> rfl

lemma stop (h : endsChain c.token.kind = true) : Extends R ctx tree c (some (tree, c)) :=
  ⟨_, _, .stop (memberStep_stop h), .stop (callStep_stop h)⟩

lemma step {tree₁ c₁}
    (hstep : (memberStep R ctx true ⟨tree, false⟩).run c = some (some ⟨tree₁, false⟩, c₁))
    (hlt : room c₁ < room c) (h : Extends R ctx tree₁ c₁ o) : Extends R ctx tree c o := by
  obtain ⟨chain, d, hmember, hcall⟩ := h
  exact ⟨chain, d, .next hstep hlt hmember, hcall⟩

lemma call {arguments : List Tree} {c₁ : Cursor}
    (hargs : (Rule.arguments R ctx).run (.atToken total start (.mark .leftParen) "" left) =
      some (arguments, c₁))
    (hlt : room c₁ ≤ left.length) (h : Extends R ctx (.node .call (tree :: arguments)) c₁ o) :
    Extends R ctx tree (.atToken total start (.mark .leftParen) "" left) o := by
  obtain ⟨chain, d, hmember, hcall⟩ := h
  refine ⟨⟨tree, false⟩, _, .stop ?_, .next ?_ ?_ hcall⟩
  · simp [memberStep]
  · simp [callStep, eat, hargs, memberRest, hmember.run]
  · rw [room_atMark]
    exact Nat.lt_succ_of_le ((hmember.room_le_room _ rfl).trans hlt)

lemma fail
    (hargs : (Rule.arguments R ctx).run (.atToken total start (.mark .leftParen) "" left) = none) :
    Extends R ctx tree (.atToken total start (.mark .leftParen) "" left) none :=
  ⟨⟨tree, false⟩, _, .stop (by simp [memberStep]), .fail (by simp [callStep, eat, hargs])⟩

end Extends

lemma arrowGuess_other {text} (h : k ∉ [.mark .leftParen, .mark .less, .keyword .asyncKw]) :
    arrowGuess.run (.atToken total start k text left) =
      some (.no, .atToken total start k text left) := by
  simp only [mem_cons, not_mem_nil, or_false, not_or] at h
  obtain ⟨hparen, hless, hasync⟩ := h
  simp [arrowGuess, hasync]

open Phrase in
lemma arrowGuess_paren {start₁} {text : String} {left₁}
    (hscan : Cursor.scan total left = Cursor.atToken total start₁ k text left₁)
    (hk : k ∈ startKinds .compound)
    (hword : k ∈ [.name, .keyword .thisKw] → Unlike (.scan total left₁)) :
    arrowGuess.run (.atToken total start (.mark .leftParen) "" left) =
      some (.no, .atToken total start (.mark .leftParen) "" left) := by
  simp only [startKinds, mem_cons, not_mem_nil, or_false] at hk
  rw [arrowGuess, lookahead_run]
  have hthis : Keyword.isModifier .thisKw = false := rfl
  simp only [Bool.and_eq_true, bne_iff_ne, ne_eq, beq_iff_eq, Bool.not_eq_eq_eq_not, Bool.not_true,
    Bool.or_eq_true, bind_pure_comp, StateT.run_bind, atWord_run, atToken_token,
    Option.bind_eq_bind, Option.bind_some, reduceCtorEq, ↓reduceIte, kind_run, advance_atToken,
    hscan, Option.some.injEq, Prod.mk.injEq, and_true]
  rcases hk with rfl | rfl | rfl | rfl | rfl | rfl | rfl | rfl | rfl | rfl
  all_goals try rfl
  all_goals
    simp only [Kind.isModifier, Kind.isBindable, hthis, Bool.false_eq_true, Bool.true_eq_false,
      Kind.keyword.injEq, reduceCtorEq, not_false_eq_true, and_true, false_and, ↓reduceIte,
      Bool.not_eq_eq_eq_not, Bool.not_false, not_true_eq_false, and_false, StateT.run_bind,
      advance_atToken, kind_run, Option.bind_eq_bind, Option.bind_some]
    obtain ⟨hseparates, hasks⟩ := hword (by decide)
    simp only [mem_cons, not_mem_nil, or_false, not_or] at hseparates
    split
    · exact absurd ‹_› hseparates.1
    · next hquestion =>
      have hnone : ∀ k ∈ startKinds .single, k ∉ [.mark .colon, .mark .comma, .mark .assign,
        .mark .rightParen] := by decide
      have hfourth := hnone _ (hasks hquestion)
      simp only [mem_cons, not_mem_nil, or_false, not_or] at hfourth
      rw [bind_run (advance_run fun w hw => by cases hquestion.symm.trans hw), bind_run kind_run]
      split
      · exact absurd ‹_› hfourth.1
      · exact absurd ‹_› hfourth.2.1
      · exact absurd ‹_› hfourth.2.2.1
      · exact absurd ‹_› hfourth.2.2.2
      · rfl
    · exact absurd ‹_› hseparates.2.1
    · exact absurd ‹_› hseparates.2.2.1
    · exact absurd ‹_› hseparates.2.2.2
    · rfl

lemma update_run {c' : Cursor} (hincrement : c.token.kind ≠ .mark .increment)
    (hdecrement : c.token.kind ≠ .mark .decrement) (h : (R.leftHand ctx).run c = some (tree, c'))
    (hends : endsChain c'.token.kind = true) : (update R ctx).run c = some (tree, c') := by
  rw [update, bind_run kind_run]
  split
  · exact absurd ‹_› hincrement
  · exact absurd ‹_› hdecrement
  · rw [bind_run h, bind_run kind_run]
    split
    iterate 2
      next hkind =>
      rw [hkind] at hends
      cases hends
    · rfl

lemma unary_eq_update (hkind : c.token.kind ∈ .number :: Phrase.startKinds .chain) :
    (unary R ctx).run c = (update R ctx).run c := by
  have hnone : ∀ k ∈ .number :: Phrase.startKinds .chain, k ∉ [.mark .plus, .mark .minus,
    .mark .tilde, .mark .bang, .keyword .deleteKw, .keyword .typeofKw, .keyword .voidKw, .mark .less,
    .keyword .awaitKw] := by decide
  have hother := hnone _ hkind
  simp only [mem_cons, not_mem_nil, or_false, not_or] at hother
  obtain ⟨h₁, h₂, h₃, h₄, h₅, h₆, h₇, h₈, h₉⟩ := hother
  rw [unary, bind_run kind_run]
  split
  case h_10 => rfl
  all_goals exact absurd ‹_› ‹_›

lemma unary_run {c'} (hkind : c.token.kind ∈ .number :: Phrase.startKinds .chain)
    (h : (R.leftHand ctx).run c = some (tree, c')) (hends : endsChain c'.token.kind = true) :
    (unary R ctx).run c = some (tree, c') := by
  have hnone : ∀ k ∈ .number :: Phrase.startKinds .chain, k ≠ .mark .increment ∧
    k ≠ .mark .decrement := by decide
  rw [unary_eq_update hkind]
  exact update_run (hnone _ hkind).1 (hnone _ hkind).2 h hends

lemma binary_run {c₁ o} (hprivate : c.token.kind ≠ .privateName)
    (h : (R.unary ctx).run c = some (tree, c₁))
    (hrest : Iterates (binaryStep R ctx floor) tree c₁ o) : (binary R ctx floor).run c = o := by
  simp [binary, hprivate, h, hrest.run]

/-- Reads what follows the left side of an expression. -/
def afterLeft (R : Rules) (ctx : Context) (returnType : Bool) (left : Tree) : Rule Tree := do
  match left, (← kind) with
  | .name text, .mark .arrow =>
    passArrow
    arrowBody R ctx ⟨false, [.name text], false⟩ returnType
  | _, .mark m =>
    if m == .assign then
      let some target := left.target? | failure
      advance
      return .node .assign [target, ← R.assignment ctx returnType]
    else if m.isAssignment then
      unless left.isSimpleTarget do failure
      advance
      return .node .compoundAssign [left, ← R.assignment ctx returnType]
    else if m == .question then
      advance
      let yes ← R.assignment { ctx with allowsIn := true } false
      expect .colon
      let no ← R.assignment ctx returnType
      return .node .conditional [left, yes, no]
    else return left
  | _, _ => return left

lemma assignment_eq {returnType : Bool}
    (hword : c.token.kind ∉ [.keyword .yieldKw, .keyword .asyncKw])
    (hguess : arrowGuess.run c = some (.no, c)) :
    (assignment R ctx returnType).run c =
      (R.binary ctx 0 >>= afterLeft R ctx returnType).run c := by
  simp only [mem_cons, not_mem_nil, or_false, not_or] at hword
  obtain ⟨hyield, hasync⟩ := hword
  have hstarts : (startsYield ctx).run c = some (false, c) := by simp [startsYield, hyield]
  have harrow : (parenthesizedArrow? R ctx returnType).run c = some (none, c) := by
    simp [parenthesizedArrow?, hguess]
  have hbare : (asyncArrow? R ctx returnType).run c = some (none, c) := by
    simp [asyncArrow?, ahead, eatWord, hasync]
  rw [assignment, bind_run hstarts]
  refine (bind_run harrow).trans ?_
  exact bind_run hbare

section AfterLeft

variable {returnType : Bool} {tree right : Tree} {c' : Cursor} {total start : Nat}
  {left : List Char}

lemma binaryStep_sign (sign : InfixSign) (hleft : isLogical tree = false)
    (hright : isLogical right = false)
    (h : ∀ level, (R.binary ctx level).run (.scan total left) = some (right, c')) :
    (binaryStep R ctx 0 tree).run (.atToken total start (.mark sign.mark) "" left) =
      some (some (Phrase.infixTree sign tree right), c') := by
  obtain ⟨level, hlevel⟩ : ∃ level, level? (.mark sign.mark) = some (level + 1) := by
    cases sign <;> exact ⟨_, rfl⟩
  have hgreater : sign.mark ≠ .greater := by cases sign <;> nofun
  simp only [binaryStep, joinGreater, Nat.not_lt_zero, decide_false, Bool.false_or,
    Bool.and_eq_true, beq_iff_eq, bne_iff_ne, ne_eq, Bool.not_eq_eq_eq_not, Bool.not_true,
    Bool.or_eq_true, bind_pure_comp, bind_assoc, StateT.run_bind, atMark_run, atToken_token,
    kind_run, Option.bind_eq_bind, Option.bind_some, Kind.mark.injEq, hgreater, ↓reduceIte,
    StateT.run_pure, Option.pure_def, hlevel, Nat.add_eq_zero_iff, Nat.succ_ne_self, and_false,
    false_and, reduceCtorEq, or_self, advance_atToken, h]
  cases sign <;> simp [InfixSign.mark, Phrase.infixTree, hleft, hright]

lemma afterLeft_end (h : endsSingle c.token.kind = true) :
    (afterLeft R ctx returnType tree).run c = some (tree, c) := by
  rw [afterLeft, bind_run kind_run]
  split
  · next hkind =>
    rw [hkind] at h
    cases h
  · next m _ hkind =>
    rw [hkind] at h
    cases m with
    | rightParen | rightBracket | rightBrace | semicolon | colon | comma => rfl
    | _ => cases h
  · rfl

lemma afterLeft_assign {target value} (htarget : tree.target? = some target)
    (h : (R.assignment ctx returnType).run (.scan total left) = some (value, c')) :
    (afterLeft R ctx returnType tree).run (.atToken total start (.mark .assign) "" left) =
      some (.node .assign [target, value], c') := by
  simp [afterLeft, htarget, h]

lemma afterLeft_question {yes no : Tree} {start' : Nat} {left' : List Char}
    (hyes : (R.assignment { ctx with allowsIn := true } false).run (.scan total left) =
      some (yes, .atToken total start' (.mark .colon) "" left'))
    (hno : (R.assignment ctx returnType).run (.scan total left') = some (no, c')) :
    (afterLeft R ctx returnType tree).run (.atToken total start (.mark .question) "" left) =
      some (.node .conditional [tree, yes, no], c') := by
  simp [afterLeft, Mark.isAssignment, hyes, hno]

variable {body : Tree}

lemma arrowBody_run (head : ArrowHead) (hbrace : c.token.kind ≠ .mark .leftBrace)
    (h : (R.assignment { ctx with inAsync := head.async, inGenerator := false } returnType).run c =
      some (body, c')) :
    (arrowBody R ctx head returnType).run c = some (.node .arrow (head.parts ++ [body]), c') := by
  simp [arrowBody, hbrace, h]

lemma afterLeft_arrow {text : String}
    (hbrace : (Cursor.scan total left).token.kind ≠ .mark .leftBrace)
    (h : (R.assignment { ctx with inAsync := false, inGenerator := false } returnType).run
      (.scan total left) = some (body, c')) :
    (afterLeft R ctx returnType (.name text)).run (.atToken total start (.mark .arrow) "" left) =
      some (.node .arrow [.name text, body], c') := by
  have hbody := arrowBody_run ⟨false, [.name text], false⟩ hbrace h
  simp [afterLeft, passArrow, hbody]

lemma arrowHead_run :
    (arrowHead R ctx).run (.atToken total start (.mark .leftParen) ""
      (')' :: ' ' :: '=' :: '>' :: left)) = some (⟨false, [], false⟩, .scan total left) := by
  set cs := ' ' :: '=' :: '>' :: left with hcs
  set opening := Cursor.atToken total start (.mark .leftParen) "" (')' :: cs) with hopening
  have hasync : (eatWord .asyncKw).run opening = some (false, opening) := by
    simp [eatWord, hopening]
  have hgenerics : ∀ ctx, (typeParameters? R ctx).run opening = some ([], opening) := by
    simp [typeParameters?, eat, hopening]
  have hparameters : ∀ ctx, (parameters R ctx false).run opening =
      some ((none, []), .scan total cs) := by
    simp [parameters, restList, list, hopening]
  have hresult : ∀ ctx, (resultType? R ctx).run (.scan total cs) = some ([], .scan total cs) := by
    simp [resultType?, eat, hcs, scan_space, scan_arrow]
  have harrow : passArrow.run (.scan total cs) = some ((), .scan total left) := by
    simp [passArrow, hcs, scan_space, scan_arrow]
  rw [arrowHead, bind_run hasync, bind_run (hgenerics _), bind_run (hparameters _)]
  refine (bind_run flawIf_run).trans ?_
  rw [bind_run (hresult _), bind_run harrow]
  rfl

lemma assignment_arrow (hbrace : (Cursor.scan total left).token.kind ≠ .mark .leftBrace)
    (h : (R.assignment { ctx with inAsync := false, inGenerator := false } true).run
      (.scan total left) = some (body, c')) :
    (assignment R ctx returnType).run (.atToken total start (.mark .leftParen) ""
      (')' :: ' ' :: '=' :: '>' :: left)) = some (.node .arrow [body], c') := by
  have hguess : arrowGuess.run (.atToken total start (.mark .leftParen) ""
      (')' :: ' ' :: '=' :: '>' :: left)) = some (.yes, .atToken total start (.mark .leftParen) ""
      (')' :: ' ' :: '=' :: '>' :: left)) := by
    simp [arrowGuess, scan_space, scan_arrow]
  have hbody := arrowBody_run ⟨false, [], false⟩ hbrace h
  simp [assignment, startsYield, parenthesizedArrow?, hguess, arrowHead_run, hbody]

end AfterLeft

lemma expression_fail {n} (hkind : c.token.kind ∈ Phrase.startKinds .chain)
    (hguess : arrowGuess.run c = some (.no, c))
    (h : (leftHand (Rules.upTo n) { ctx with inDecorator := false }).run c = none) :
    (expression (Rules.upTo (n + 4)) ctx).run c = none := by
  have hnone : ∀ k ∈ Phrase.startKinds .chain, k ≠ .mark .increment ∧ k ≠ .mark .decrement ∧
    k ≠ .privateName ∧ k ∉ [.keyword .yieldKw, .keyword .asyncKw] := by decide
  obtain ⟨hincrement, hdecrement, hprivate, hword⟩ := hnone _ hkind
  have hleft : ((Rules.upTo (n + 1)).leftHand { ctx with inDecorator := false }).run c = none := h
  have hunary : ((Rules.upTo (n + 2)).unary { ctx with inDecorator := false }).run c = none := by
    refine (unary_eq_update (mem_cons_of_mem _ hkind)).trans ?_
    simp [update, hleft]
  have hbinary :
      ((Rules.upTo (n + 3)).binary { ctx with inDecorator := false } 0).run c = none := by
    show (binary (Rules.upTo (n + 2)) _ 0).run c = none
    simp [binary, hprivate, hunary]
  have hassignment :
      ((Rules.upTo (n + 4)).assignment { ctx with inDecorator := false } true).run c = none := by
    refine (assignment_eq hword hguess).trans ?_
    simp [hbinary]
  simp [expression, hassignment]

end Rule

end SceneView.Script
