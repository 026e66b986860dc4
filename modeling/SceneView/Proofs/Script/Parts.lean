import SceneView.Proofs.Script.Locate

/-!
# Names, types and functions keep track of `this`

The rules below expressions: property names, modifiers, patterns, parameters, types, functions and
classes. Each of them keeps track of `this` if the rules that it refers back to do.
-/

namespace SceneView.Script

/-- Every rule keeps track of `this`. -/
structure Rules.Locate (text : List Char) (R : Rules) : Prop where
  expression : ∀ {known} ctx, Rule.Locates text known (R.expression ctx)
  assignment : ∀ {known} ctx returnType, Rule.Locates text known (R.assignment ctx returnType)
  binary : ∀ {known} ctx floor, Rule.Locates text known (R.binary ctx floor)
  unary : ∀ {known} ctx, Rule.Locates text known (R.unary ctx)
  leftHand : ∀ {known} ctx, Rule.Locates text known (R.leftHand ctx)
  primary : ∀ {known} ctx, Rule.Locates text known (R.primary ctx)
  type : ∀ {known} ctx, Rule.Locates text known (R.type ctx)
  pattern : ∀ {known} ctx, Rule.Locates text known (R.pattern ctx)
  statement : ∀ {known} ctx place, Rule.Locates text known (R.statement ctx place)

namespace Rule

variable {text : List Char} {known : List Nat} {R : Rules} (h : R.Locate text)
  (ctx : Context)
include h

lemma computedName_locates : Locates text known (computedName R ctx) :=
  .expect <| .bind (h.assignment _ _) fun _ => .expect <| .pure (by simp)

lemma propertyName_locates : Locates text known (propertyName R ctx) := by
  refine .look .kind fun k => ?_
  split
  iterate 3 exact .advance <| .pure (by simp)
  · exact .last (computedName_locates h ctx) (by simp)
  · exact .advance <| .pure (by simp)
  · exact .skip wordName_locates fun _ => .pure (by simp)

omit h in
lemma followsModifier_looks : Looks followsModifier :=
  .bind .kind fun _ => .pure

omit h in
lemma modifierAhead_locates : Locates text known modifierAhead := by
  refine .look .kind fun k => ?_
  split
  · exact .advance <| .look followsModifier_looks fun _ => .doneIf
  iterate 2
    · refine .advance <| .look .kind fun k => ?_
      split
      · exact .done _
      · exact .fail
  · exact .advance <| .look (.atWord _) fun _ => .doneIf
  · refine .advance <| .look .onNewLine fun b => ?_
    dsimp only
    split
    · exact .fail_bind
    · exact .look followsModifier_looks fun _ => .doneIf

omit h in
lemma contextualModifier_locates (k : Keyword) : Locates text known (contextualModifier k) := by
  refine .look (.atWord _) fun b => ?_
  split
  · exact .skip (attempt_locates modifierAhead_locates) fun _ => .done _
  · exact .done _

omit h in
lemma accessorModifier?_locates : Locates text known accessorModifier? := by
  refine .skip (contextualModifier_locates _) fun b => ?_
  split
  · exact .done _
  · refine .skip (contextualModifier_locates _) fun b => ?_
    split
    · exact .done _
    · exact .done _

omit h in
lemma modifier?_locates (blocks constants seenStatic : Bool) :
    Locates text known (modifier? blocks constants seenStatic) := by
  refine .look .kind fun k => ?_
  split
  · split
    · exact .done _
    split
    · split
      · exact .done _
      · refine .skip (attempt_locates ?_) fun _ => .done _
        refine .advance <| .look .onNewLine fun b => ?_
        dsimp only
        split
        · exact .fail_bind
        · exact .look followsModifier_looks fun _ => .doneIf
    · refine .look (.nextIs _) fun b => ?_
      split
      · exact .done _
      · exact .skip (attempt_locates modifierAhead_locates) fun _ => .done _
  · exact .done _

omit h in
lemma modifiers_locates (blocks constants : Bool) :
    Locates text known (modifiers blocks constants) := by
  refine (iterate_locates (fun seen => ?_) []).more (by simp)
  refine .skip (modifier?_locates _ _ _) fun k => ?_
  split
  · exact .done _
  · exact .flawIf <| .done _

lemma decorators_locates : Locates text known (decorators R ctx) :=
  many_locates (.eatThen (h.leftHand _) (by simp) (by simp))

lemma annotation?_locates : Locates text known (annotation? R ctx) :=
  .eatThen (h.type _) (by simp) (by simp)

lemma initializer?_locates : Locates text known (initializer? R ctx) :=
  .eatThen (h.assignment _ _) (by simp) (by simp)

lemma patternWithDefault_locates : Locates text known (patternWithDefault R ctx) :=
  .bind (h.pattern _) fun _ => .last (initializer?_locates h ctx) (by simp)

lemma restElement_locates : Locates text known (restElement R ctx) := by
  refine .expect <| .bind (h.pattern _) fun pattern => .look (.atMark _) fun b => ?_
  extract_lets jp
  have hjp : ∀ u, Locates text (known ++ offsetsOf pattern) (jp u) := fun _ =>
    .bind (annotation?_locates h ctx) fun _ => .bind (initializer?_locates h ctx) fun _ =>
      .flawIf <| .pure (by simp)
  split
  · exact .skip flaw_locates fun _ => .advance <| hjp ()
  · exact hjp ()

lemma restList_locates (close : Mark) {item} (hitem : ∀ {known}, Locates text known item) :
    Locates text known (restList R ctx close item) := by
  refine .bind (list_locates close ?_) fun ⟨items, trailing⟩ => .flawIf <|
    .flawIf <| .pure fun p => ?_
  · refine .look (.atMark _) fun b => ?_
    split
    · exact .last (restElement_locates h ctx) (by simp)
    · exact .last hitem (by simp)
  · have hitems : (items.map (·.1)).flatMap offsetsOf = items.flatMap offsetsOf := by
      rw [List.flatMap_map]
      exact List.flatMap_congr fun item _ => (List.append_nil _).symm
    simp [hitems]

lemma bindingProperty_locates : Locates text known (bindingProperty R ctx) := by
  refine .look .token fun t => .bind (propertyName_locates h ctx) fun key =>
    .look (.atMark _) fun b => ?_
  split
  · exact .flawIf <| .flawIf <|
      .bind (initializer?_locates h ctx) fun _ => .pure fun p => by simp; omega
  · exact .expect <| .last (patternWithDefault_locates h ctx) (by simp)

lemma pattern_locates : Locates text known (pattern R ctx) := by
  refine .look .kind fun k => ?_
  split
  · exact .advance <| .bind (restList_locates h ctx _ (bindingProperty_locates h ctx)) fun _ =>
        .expect <| .flawIf <| .pure (by simp)
  · refine .advance <| .bind (restList_locates h ctx _ ?_) fun _ => .expect <| .pure (by simp)
    refine fun {_} => .look (.atMark _) fun b => ?_
    split
    · exact .pure (by simp)
    · exact patternWithDefault_locates h ctx
  · exact .skip (bindingName_locates ctx) fun _ => .pure (by simp)

lemma parameter_locates (constructor : Bool) :
    Locates text known (parameter R ctx constructor) := by
  exact .bind (decorators_locates h ctx) fun _ => .skip (modifiers_locates _ _) fun _ =>
    .flawIf <| .bind (h.pattern _) fun _ => .eat fun _ =>
    .bind (annotation?_locates h ctx) fun _ => .bind (initializer?_locates h ctx) fun _ =>
    .flawIf <| .pure (by simp)

lemma parameters_locates (constructor : Bool) :
    Locates text known (parameters R ctx constructor) := by
  refine .expect <| .look (.atWord _) fun b => ?_
  extract_lets jp
  have hjp : ∀ receiver, Locates text (known ++ offsetsOf receiver) (jp receiver) := fun _ =>
    .bind (restList_locates h ctx _ (parameter_locates h ctx constructor)) fun _ =>
      .expect <| .pure (by simp)
  split
  · refine .advance <| .bind (annotation?_locates h ctx) fun type => .look (.atMark _) fun b => ?_
    split
    · exact hjp (some type)
    · exact .expect <| hjp (some type)
  · have hnone := hjp none
    rwa [offsetsOf_none, List.append_nil] at hnone

lemma innerType_locates : Locates text known (innerType R ctx) :=
  h.type _

omit h in
lemma startsType_looks : Looks startsType := by
  refine .bind .kind fun k => ?_
  split
  case h_17 => exact .nextIs _
  case h_18 => exact .lookahead _ _
  all_goals exact .pure

lemma typeParameter_locates : Locates text known (typeParameter R ctx) := by
  refine .skip (modifiers_locates _ _) fun _ => .flawIf <|
    .skip (bindingName_locates _) fun _ => .eatWord fun b => ?_
  extract_lets jp
  have hjp : ∀ bounds, Locates text (known ++ offsetsOf bounds) (jp bounds) := fun _ =>
    .eatThen (innerType_locates h ctx) (by simp) (by simp)
  split
  · refine .bind (innerType_locates h ctx) fun bound => ?_
    simpa using hjp [bound]
  · simpa using hjp []

lemma typeParameters?_locates : Locates text known (typeParameters? R ctx) := by
  refine .eat fun b => ?_
  split
  · exact .bind (list_locates _ (typeParameter_locates h ctx)) fun ⟨items, trailing⟩ =>
      .flawIf <| .expect <| .pure (by simp)
  · exact .pure (by simp)

lemma typeArguments_locates : Locates text known (typeArguments R ctx) :=
  .skip splitLess_locates fun _ => .expect <|
    .bind (list_locates _ (innerType_locates h ctx)) fun ⟨items, trailing⟩ =>
      .flawIf <| .expect <| .pure (by simp)

lemma typeArguments?_locates : Locates text known (typeArguments? R ctx) := by
  refine .look .onNewLine fun b => ?_
  split
  · exact .pure (by simp)
  · refine .look .kind fun k => ?_
    split
    any_goals exact typeArguments_locates h ctx
    exact .pure (by simp)

omit h in
lemma startsFunctionType_looks (ctx : Context) : Looks (startsFunctionType R ctx) := by
  refine .bind .kind fun k => ?_
  split
  · exact .pure
  · exact .lookahead _ _
  · exact .pure
  · exact .nextIs _
  · exact .pure

lemma typeOrPredicate_locates : Locates text known (typeOrPredicate R ctx) := by
  refine .look .kind fun k => ?_
  extract_lets inner jp
  have hjp : ∀ isPredicate, Locates text known (jp isPredicate) := by
    intro isPredicate
    cases isPredicate with
    | false => exact innerType_locates h ctx
    | true => exact .skip advanceName_locates fun _ => .advance <|
        innerType_locates h ctx
  split
  · exact .look (.nextIs _) fun isPredicate => hjp isPredicate
  · exact hjp false

lemma resultType?_locates : Locates text known (resultType? R ctx) :=
  .eatThen (typeOrPredicate_locates h ctx) (by simp) (by simp)

lemma functionType_locates : Locates text known (functionType R ctx) :=
  .eatWord fun _ => .eatWord fun _ => .bind (typeParameters?_locates h ctx) fun _ =>
    .bind (parameters_locates h ctx _) fun ⟨receiver, parameters⟩ =>
    .expect <| .last (typeOrPredicate_locates h ctx) (by simp)

omit h in
lemma endMember_locates : Locates text known endMember := by
  refine .eat fun b => ?_
  split
  · exact .done _
  · exact endStatement_locates

lemma indexSignature_locates : Locates text known (indexSignature R ctx) :=
  .expect <| .skip (bindingName_locates _) fun _ =>
    .bind (annotation?_locates h ctx) fun _ => .flawIf <|
    .expect <| .bind (annotation?_locates h ctx) fun _ =>
    .flawIf <| .skip endMember_locates fun _ => .pure (by simp)

lemma signature_locates : Locates text known (signature R ctx) :=
  .bind (typeParameters?_locates h ctx) fun _ =>
    .bind (parameters_locates h ctx _) fun ⟨receiver, parameters⟩ =>
    .last (resultType?_locates h ctx) (by simp)

lemma typeMember_locates : Locates text known (typeMember R ctx) := by
  have hsignature : Locates text known (do
      let parts ← signature R ctx
      endMember
      return Tree.node .type parts) :=
    .bind (signature_locates h ctx) fun _ => .skip endMember_locates fun _ => .pure (by simp)
  have hkeyed : ∀ (known) (key : List Tree), Locates text (known ++ offsetsOf key) (do
      let parts ← signature R ctx
      endMember
      return Tree.node .type (key ++ parts)) := fun known key =>
    .bind (signature_locates h ctx) fun _ => .skip endMember_locates fun _ => .pure (by simp)
  refine .look .kind fun k => ?_
  split
  · exact hsignature
  · exact hsignature
  · refine .look (.nextIs _) fun b => ?_
    split
    · exact .advance <| hsignature
    refine .skip (modifiers_locates _ _) fun modifiers =>
      .skip accessorModifier?_locates fun a => ?_
    split
    · exact .flawIf <| .bind (propertyName_locates h ctx) fun key => hkeyed _ key
    refine .flawIf <| .look (.atMark _) fun b => .look (.lookahead _ _) fun b' => ?_
    split
    · exact indexSignature_locates h ctx
    refine .bind (propertyName_locates h ctx) fun key => .eat fun _ => .look .kind fun k => ?_
    split
    iterate 2 exact .flawIf <| hkeyed _ key
    · refine .bind (annotation?_locates h ctx) fun type => .look (.atMark _) fun b => ?_
      dsimp only
      split
      · exact .fail_bind
      · exact .skip endMember_locates fun _ => .pure (by simp)

lemma typeMembers_locates : Locates text known (typeMembers R ctx) := by
  refine .expect <| .bind (many_locates ?_) fun _ => .expect <| .pure (by simp)
  refine .look (.atMark _) fun b => ?_
  split
  · exact .pure (by simp)
  · exact .last (typeMember_locates h ctx) (by simp)

lemma mappedType_locates : Locates text known (mappedType R ctx) := by
  refine .expect <| .look .kind fun k => ?_
  extract_lets jp
  have hjp : ∀ u, Locates text known (jp u) := by
    refine fun _ => .expect <| .skip wordName_locates fun _ =>
      .expectWord <| .bind (innerType_locates h ctx) fun domain =>
      .eatWord fun b => ?_
    extract_lets jp
    have hjp : ∀ renamed, Locates text (known ++ offsetsOf domain ++ offsetsOf renamed)
        (jp renamed) := by
      refine fun renamed => .expect <| .look .kind fun k => ?_
      extract_lets jp
      have hjp : ∀ u, Locates text (known ++ offsetsOf domain ++ offsetsOf renamed) (jp u) := by
        refine fun _ => .bind (annotation?_locates h ctx) fun type => .eat fun b => ?_
        dsimp only
        split
        · exact .endStatement <| .expect <| .pure (by simp)
        · exact .expect <| .pure (by simp)
      split
      iterate 2 exact .advance <| .expect <| hjp ()
      · exact .eat fun _ => hjp ()
    split
    · refine .bind (innerType_locates h ctx) fun renamed => ?_
      simpa using hjp [renamed]
    · simpa using hjp []
  split
  iterate 2 exact .advance <| .expectWord <| hjp ()
  · exact .eatWord fun _ => hjp ()

omit h in
lemma qualifiedName_locates (query : Bool) : Locates text known (qualifiedName query) := by
  intro c hc a c' hrun
  obtain ⟨t, c₁, ht, hrun⟩ := run_bind hrun
  cases ht
  have hmany : ∀ {known}, Locates text known (many do
      if ← eat .dot then
        if (← kind) == .privateName then
          advance
          return some ""
        return some (← wordName)
      return none) := by
    refine many_locates (.eat fun b => ?_)
    split
    · refine .look .kind fun k => ?_
      split
      · exact .advance <| .done _
      · exact .skip wordName_locates fun _ => .done _
    · exact .done _
  dsimp only at hrun
  split at hrun
  · next hthis =>
    rw [Bool.and_eq_true, beq_iff_eq] at hthis
    obtain ⟨u, c₂, hu, hrun⟩ := run_bind hrun
    have hfirst := this_run hc hthis.2 hu
    have hrest : Locates text (known ++ [c.token.start]) _ :=
      .skip hmany fun _ => .pure (a := [Tree.this c.token.start]) fun p => by simp
    exact hfirst.andThen (hrest c₂ hfirst.lies a c' hrun)
  · have hrest : Locates text known _ :=
      .skip wordName_locates fun _ => .skip hmany fun _ => .pure (a := ([] : List Tree)) (by simp)
    exact hrest c hc a c' hrun

lemma typeReference_locates : Locates text known (typeReference R ctx) :=
  .bind (qualifiedName_locates _) fun _ => .last (typeArguments?_locates h ctx) (by simp)

lemma importType_locates : Locates text known (importType R ctx) := by
  refine .expectWord <| .expect <| .bind (innerType_locates h ctx) fun source => .eat fun b => ?_
  extract_lets jp
  have hjp : ∀ options, Locates text (known ++ offsetsOf source ++ offsetsOf options)
      (jp options) := by
    refine fun options => .expect <| .eat fun b => ?_
    extract_lets jp
    have hjp : ∀ u, Locates text (known ++ offsetsOf source ++ offsetsOf options) (jp u) :=
      fun _ => .last (typeArguments?_locates h ctx) (by simp)
    split
    · exact .bind (qualifiedName_locates _) fun _ => (hjp ()).more (by simp)
    · exact hjp ()
  split
  · refine .look (.atMark _) fun b => ?_
    split
    · simpa using hjp []
    · refine .bind (h.assignment _ _) fun options => .eat fun _ => ?_
      simpa using hjp [options]
  · simpa using hjp []

lemma typeQuery_locates : Locates text known (typeQuery R ctx) := by
  refine .expectWord <| .look (.atWord _) fun b => ?_
  split
  · exact importType_locates h ctx
  · exact .bind (qualifiedName_locates _) fun _ => .last (typeArguments?_locates h ctx) (by simp)

lemma tupleElement_locates : Locates text known (tupleElement R ctx) := by
  refine .eat fun _ => .look (.lookahead _ _) fun named => ?_
  dsimp only
  split
  · exact .skip wordName_locates fun _ => .eat fun _ => .expect <| innerType_locates h ctx
  · exact innerType_locates h ctx

lemma templateType_locates : Locates text known (templateType R ctx) := by
  refine many_locates (.look .kind fun k => ?_)
  split
  · exact .advance <| .pure (by simp)
  iterate 2
    exact .advance <| .bind (innerType_locates h ctx) fun _ => reopen_locates (.pure (by simp))
  · exact .fail

lemma markedType_locates :
    Locates text known (do
      let optional ← eat .question
      if !optional then advance
      match ← kind with
      | .mark .comma | .mark .rightBrace | .mark .rightParen | .mark .greater | .mark .assign
      | .mark .pipe => if optional then return Tree.node .type [] else innerType R ctx
      | _ => innerType R ctx) := by
  refine .eat fun optional => ?_
  extract_lets jp
  have hinner : Locates text known (if optional = true then return Tree.node .type [] else
      innerType R ctx) := by
    split
    · exact .pure (by simp)
    · exact innerType_locates h ctx
  have hjp : ∀ u, Locates text known (jp u) := by
    refine fun _ => .look .kind fun k => ?_
    split
    any_goals exact hinner
    exact innerType_locates h ctx
  split
  · exact .advance <| hjp ()
  · exact hjp ()

lemma simpleType_locates : Locates text known (simpleType R ctx) := by
  have hconstant : Locates text known (do advance; return Tree.node .type []) :=
    .advance <| .pure (by simp)
  have hbuiltIn : Locates text known (do
      if ← nextIs fun t => t.kind == .mark .dot then typeReference R ctx
      else
        advance
        return Tree.node .type []) := by
    refine .look (.nextIs _) fun b => ?_
    split
    · exact typeReference_locates h ctx
    · exact hconstant
  refine .look .kind fun k => ?_
  split
  any_goals exact hconstant
  any_goals exact hbuiltIn
  any_goals exact markedType_locates h ctx
  · exact .last (templateType_locates h ctx) (by simp)
  · refine .advance <| .look .kind fun k => ?_
    split
    · exact hconstant
    · exact hconstant
    · exact .fail
  · refine .look (.lookahead _ _) fun b => ?_
    split
    · exact mappedType_locates h ctx
    · exact .last (typeMembers_locates h ctx) (by simp)
  · exact .advance <| .bind (list_locates _ (tupleElement_locates h ctx)) fun ⟨items, trailing⟩ =>
        .expect <| .pure (by simp)
  · exact .advance <| .bind (innerType_locates h ctx) fun _ => .expect <| .pure (by simp)
  · refine .advance <| .look (.atWord _) fun b => .look .onNewLine fun b' => ?_
    split
    · exact .advance <| innerType_locates h ctx
    · exact .pure (by simp)
  · exact typeQuery_locates h ctx
  · exact importType_locates h ctx
  · refine .look (.nextIs _) fun b => ?_
    split
    · refine .advance <| .skip advanceName_locates fun _ => .eatWord fun b => ?_
      split
      · exact innerType_locates h ctx
      · exact .pure (by simp)
    · exact typeReference_locates h ctx
  · exact typeReference_locates h ctx

lemma postfixType_locates : Locates text known (postfixType R ctx) := by
  refine .bind (simpleType_locates h ctx) fun type =>
    (iterate_locates (fun type => ?_) type).more (by simp)
  refine .look .onNewLine fun b => ?_
  split
  · exact .pure (by simp)
  · refine .look .kind fun k => ?_
    split
    · exact .advance <| .pure (by simp)
    · refine .look (.lookahead _ _) fun b => ?_
      split
      · exact .pure (by simp)
      · exact .advance <| .pure (by simp)
    · refine .advance <| .look startsType_looks fun b => ?_
      split
      · exact .bind (innerType_locates h ctx) fun _ => .expect <| .pure (by simp)
      · exact .expect <| .pure (by simp)
    · exact .pure (by simp)

lemma inferredType_locates : Locates text known (inferredType R ctx) := by
  refine .expectWord <| .skip (bindingName_locates _) fun _ => .last (attempt_locates ?_) (by simp)
  refine .expectWord <| .bind (h.type _) fun bound => .look (.atMark _) fun b => ?_
  dsimp only
  split
  · exact .fail_bind
  · exact .pure (by simp)

lemma operatorType_locates (fuel : Nat) : Locates text known (operatorType R ctx fuel) := by
  induction fuel with
  | zero => exact .fail
  | succ fuel ih =>
    refine .look .kind fun k => ?_
    split
    iterate 3 exact .advance <| ih
    · exact inferredType_locates h ctx
    · exact postfixType_locates h ctx

omit h in
lemma joinedTypes_locates (m : Mark) {operand} (h : ∀ {known}, Locates text known operand) :
    Locates text known (joinedTypes m operand) := by
  refine .eat fun _ => .bind h fun first => .bind (many_locates ?_) fun others => .pure fun p => ?_
  · exact .eatThen h (by simp) (by simp)
  · split
    · simp; omega
    · simp

lemma type_locates : Locates text known (type R ctx) := by
  refine .look (startsFunctionType_looks ctx) fun b => ?_
  split
  · exact functionType_locates h ctx
  · refine .bind (joinedTypes_locates _ (joinedTypes_locates _
      (.look .bound fun _ => operatorType_locates h ctx _))) fun type =>
        .look .onNewLine fun b => ?_
    split
    · exact .pure (by simp)
    · refine .eatWord fun b => ?_
      split
      · exact .bind (h.type _) fun _ => .expect <|
          .bind (innerType_locates h ctx) fun _ => .expect <|
          .last (innerType_locates h ctx) (by simp)
      · exact .pure (by simp)

lemma statements_locates : Locates text known (statements R ctx) := by
  refine many_locates (.look .kind fun k => ?_)
  split
  · exact .pure (by simp)
  · exact .pure (by simp)
  · exact .last (h.statement _ _) (by simp)

lemma block_locates : Locates text known (block R ctx) :=
  .expect <| .bind (statements_locates h ctx) fun _ => .expect <| .pure (by simp)

lemma functionRest_locates (async generator constructor : Bool) :
    Locates text known (functionRest R ctx async generator constructor) := by
  refine .bind (typeParameters?_locates h _) fun generics =>
    .bind (parameters_locates h _ _) fun ⟨receiver, parameters⟩ =>
    .bind (resultType?_locates h _) fun result => .look (.atMark _) fun b => ?_
  split
  · exact .last (block_locates h _) (by simp)
  · exact .pure (by simp)

lemma functionFrom_locates (async declaration : Bool) :
    Locates text known (functionFrom R ctx async declaration) := by
  refine .expectWord <| .eat fun generator => .look .kind fun k => ?_
  extract_lets jp
  have hjp : ∀ u, Locates text known (jp u) := by
    refine fun _ => .bind (functionRest_locates h ctx _ _ _) fun rest => ?_
    dsimp only
    split
    · exact .pure (by simp)
    split
    · exact .endStatement <| .pure (by simp)
    · exact .fail_bind
  split
  · exact .skip (bindingName_locates _) fun _ => hjp ()
  split
  · exact .fail_bind
  · exact hjp ()

lemma accessor_locates (setter : Bool) : Locates text known (accessor R ctx setter) :=
  .bind (propertyName_locates h ctx) fun _ => .bind (functionRest_locates h ctx _ _ _) fun _ =>
    .flawIf <| .pure (by simp)

lemma objectMember_locates : Locates text known (objectMember R ctx) := by
  refine .eat fun b => ?_
  split
  · exact .last (h.assignment _ _) (by simp)
  refine .skip (modifiers_locates _ _) fun modifiers => .skip accessorModifier?_locates fun a => ?_
  split
  · refine .flawIf <| .bind (accessor_locates h ctx _) fun ⟨key, rest⟩ => ?_
    dsimp only
    split
    · exact .pure (by simp)
    · exact .fail_bind
  refine .eat fun generator => .look .token fun t => ?_
  dsimp only
  split
  · exact .fail_bind
  refine .bind (propertyName_locates h ctx) fun key => .look .kind fun k => ?_
  split
  · refine .flawIf <| .bind (functionRest_locates h ctx _ _ _) fun rest => ?_
    split
    · exact .pure (by simp)
    · exact .fail_bind
  refine .flawIf ?_
  split
  · refine .eat fun b => ?_
    split
    · exact .bind (h.assignment _ _) fun _ => .pure fun p => by simp; omega
    · exact .pure (by simp)
  · exact .expect <| .last (h.assignment _ _) (by simp)

lemma object_locates : Locates text known (object R ctx) :=
  .expect <| .bind (list_locates _ (objectMember_locates h _)) fun ⟨members, trailing⟩ =>
      .expect <| .pure (by simp)

lemma heritage_locates : Locates text known (heritage R ctx) := by
  refine .bind (h.leftHand _) fun base => .look (.atMark _) fun b => ?_
  dsimp only
  split
  · exact .last (attempt_locates (typeArguments_locates h ctx)) (by simp)
  · exact .pure (by simp)

lemma heritageClauses_locates : Locates text known (heritageClauses R ctx) := by
  refine .bind ((iterate_locates (fun ⟨extended, implemented, parts⟩ => ?_) _).more
    fun p => by simp) fun ⟨extended, implemented, parts⟩ => .pure (by simp)
  refine .eatWord fun b => ?_
  split
  · refine .flawIf <| .bind (heritage_locates h ctx) fun base => .look (.atMark _) fun b => ?_
    dsimp only
    split
    · exact .skip flaw_locates fun _ => .pure (by simp)
    · exact .pure (by simp)
  · refine .eatWord fun b => ?_
    split
    · exact .flawIf <| .bind (innerType_locates h ctx) fun first =>
        .last (many_locates (.eatThen (innerType_locates h ctx) (by simp) (by simp))) (by simp)
    · exact .pure (by simp)

omit h in
lemma startsConstructor_looks : Looks startsConstructor := by
  refine .bind (.atWord _) fun b => ?_
  split
  · exact .nextIs _
  · exact .pure

lemma classMember_locates : Locates text known (classMember R ctx) := by
  refine .bind (decorators_locates h ctx) fun decorators =>
    .skip (modifiers_locates _ _) fun modifiers => .look (.atWord _) fun b =>
    .look (.nextIs _) fun b' => ?_
  split
  · exact .advance <| .flawIf <| .bind (block_locates h _) fun _ => .pure fun p => by simp; omega
  refine .flawIf <| .skip accessorModifier?_locates fun a => ?_
  split
  · refine .bind (accessor_locates h _ _) fun ⟨key, rest⟩ => ?_
    dsimp only
    split
    · exact .pure (by simp)
    · exact .endStatement <| .pure (by simp)
  refine .look startsConstructor_looks fun b => ?_
  split
  · refine .advance <| .bind (functionRest_locates h _ _ _ _) fun rest => ?_
    dsimp only
    split
    · exact .pure (by simp)
    · exact .endStatement <| .pure (by simp)
  refine .look (.atMark _) fun b => .look (.lookahead _ _) fun b' => ?_
  split
  · exact .bind (indexSignature_locates h ctx) fun _ => .pure fun p => by simp; omega
  refine .eat fun generator => .bind (propertyName_locates h ctx) fun key =>
    .eat fun optional => .look .kind fun k => ?_
  split
  · refine .flawIf <| .bind (functionRest_locates h _ _ _ _) fun rest => .flawIf ?_
    dsimp only
    split
    · exact .pure (by simp)
    · exact .endStatement <| .pure (by simp)
  refine .flawIf ?_
  extract_lets jp
  have hjp : ∀ definite, Locates text (known ++ offsetsOf decorators ++ offsetsOf key)
      (jp definite) := fun _ =>
    .bind (annotation?_locates h _) fun _ => .bind (initializer?_locates h _) fun _ =>
      .flawIf <| .endStatement <| .pure (by simp)
  split
  · exact hjp false
  · exact .eat fun definite => hjp definite

lemma classFrom_locates (decorators : List Tree) (named : Bool) :
    Locates text (offsetsOf decorators) (classFrom R ctx decorators named) := by
  refine .expectWord <| .look .kind fun k => ?_
  extract_lets jp
  have hjp : ∀ u, Locates text (offsetsOf decorators) (jp u) := by
    refine fun _ => .bind (typeParameters?_locates h ctx) fun _ =>
      .bind (heritageClauses_locates h ctx) fun _ => .expect <|
      .bind (many_locates (.look .kind fun k => ?_)) fun members =>
      .expect <| .pure (by simp)
    split
    · exact .pure (by simp)
    · exact .pure (by simp)
    · exact .advance <| .pure (by simp)
    · exact .last (classMember_locates h ctx) (by simp)
  split
  · exact .skip (bindingName_locates _) fun _ => hjp ()
  split
  · exact .fail_bind
  · exact hjp ()

end Rule

end SceneView.Script
