import SceneView.Proofs.Script.Parts

/-!
# The grammar keeps track of `this`

Expressions and statements keep every `this` where it stands, given that the rules they refer back
to do; so the whole grammar does, by induction on its depth.
-/

namespace SceneView.Script

namespace Rule

variable {text : List Char} {known : List Nat} {R : Rules} (h : R.Locate text)
  (ctx : Context)
include h

lemma templateParts_locates (isTagged : Bool) :
    Locates text known (templateParts R ctx isTagged) := by
  refine .look .kind fun k => ?_
  split
  · exact .flawIf <| .advance <| .pure (by simp)
  · refine many_locates (.look .kind fun k => ?_)
    split
    · exact .flawIf <| .advance <| .pure (by simp)
    iterate 2
      · exact .flawIf <| .advance <|
          .bind (h.expression _) fun _ => reopen_locates (.pure (by simp))
    · exact .fail

lemma arrayItem_locates : Locates text known (arrayItem R ctx) := by
  refine .look (.atMark _) fun b => ?_
  split
  · exact .pure (by simp)
  · refine .eat fun b => ?_
    split
    · exact .last (h.assignment _ _) (by simp)
    · exact h.assignment _ _

lemma array_locates : Locates text known (array R ctx) :=
  .expect <| .bind (list_locates _ (arrayItem_locates h _)) fun ⟨items, trailing⟩ =>
      .expect <| .pure (by simp)

lemma parenthesized_locates : Locates text known (parenthesized R ctx) := by
  refine .expect <| .bind (list_locates _ (h.assignment _ _)) fun ⟨items, trailing⟩ => ?_
  dsimp only
  split
  · exact .fail_bind
  · refine .expect ?_
    split
    · exact .fail
    · exact .pure (by simp)
    · exact .pure (by simp)

lemma arguments_locates : Locates text known (arguments R ctx) := by
  refine .expect <| .bind (list_locates _ (.eat fun b => ?_))
    fun ⟨items, trailing⟩ => .expect <| .pure (by simp)
  split
  · exact .last (h.assignment _ _) (by simp)
  · exact h.assignment _ _

omit h in
lemma startsExpression_looks : Looks startsExpression := by
  refine .bind .kind fun k => ?_
  split
  case h_7 =>
    split
    · exact .nextIs _
    · exact .pure
  all_goals exact .pure

omit h in
lemma followsTypeArguments_looks (ctx : Context) : Looks (followsTypeArguments ctx) := by
  refine .bind .kind fun k => ?_
  split
  case h_8 => exact .bind .onNewLine fun _ => .bind startsExpression_looks fun _ => .pure
  all_goals exact .pure

lemma callTypeArguments_locates : Locates text known (callTypeArguments R ctx) := by
  refine .skip splitLess_locates fun _ => .expect <|
    .bind (list_locates _ (innerType_locates h ctx)) fun ⟨items, trailing⟩ => ?_
  dsimp only
  split
  · exact .fail_bind
  refine .look .get fun c => ?_
  split
  · exact .fail_bind
  refine .expect <| .look (followsTypeArguments_looks ctx) fun b => ?_
  split
  · exact .pure (by simp)
  · exact .fail_bind

omit h in
lemma memberName_locates (object : Tree) : Locates text (offsetsOf object) (memberName object) := by
  refine .flawIf <| .look .kind fun k => ?_
  split
  · exact .advance <| .pure (by simp)
  · exact .skip wordName_locates fun _ => .pure (by simp)

lemma memberIndex_locates (object : Tree) :
    Locates text (offsetsOf object) (memberIndex R ctx object) :=
  .expect <| .bind (h.expression _) fun _ => .expect <| .pure (by simp)

lemma typedStep_locates (chain : Chain) : Locates text (offsetsOf chain) (do
      match ← attempt (callTypeArguments R ctx) with
      | some types =>
        return some { chain with tree := Tree.node .instantiation (chain.tree :: types) }
      | none => return none) := by
  refine .bind (attempt_locates (callTypeArguments_locates h ctx)) fun types => ?_
  split
  · exact .pure (by simp)
  · exact .pure (by simp)

lemma memberStep_locates (allowsOptional : Bool)
    (chain : Chain) : Locates text (offsetsOf chain) (memberStep R ctx allowsOptional chain) := by
  have htagged : Locates text (offsetsOf chain) (do
      flawIf chain.optional
      let parts ← templateParts R ctx true
      return some { chain with tree := Tree.node .tagged (chain.tree :: parts) }) :=
    .flawIf <| .last (templateParts_locates h ctx _) (by simp)
  refine .look .kind fun k => ?_
  split
  · exact .advance <| .chain (memberName_locates _) fun _ => .pure (by simp)
  · dsimp only
    split
    · exact .fail_bind
    refine .look .get fun c => ?_
    split
    · exact .advance <| .chain (memberIndex_locates h ctx _) fun _ => .pure (by simp)
    split
    · exact .advance <| .chain (memberName_locates _) fun _ => .pure (by simp)
    · exact .pure (by simp)
  · split
    · exact .pure (by simp)
    · exact .chain (memberIndex_locates h ctx _) fun _ => .pure (by simp)
  · refine .look .onNewLine fun b => ?_
    split
    · exact .pure (by simp)
    · exact .advance <| .pure (by simp)
  · exact htagged
  · exact htagged
  iterate 2 exact typedStep_locates h ctx chain
  · exact .pure (by simp)

lemma memberRest_locates (allowsOptional : Bool)
    (chain : Chain) : Locates text (offsetsOf chain) (memberRest R ctx allowsOptional chain) :=
  iterate_locates (memberStep_locates h ctx allowsOptional) chain

lemma callStep_locates (chain : Chain) : Locates text (offsetsOf chain) (callStep R ctx chain) := by
  refine .eat fun b => ?_
  split
  · refine .look .kind fun k => ?_
    extract_lets jp
    have hjp : ∀ types, Locates text (offsetsOf chain ++ offsetsOf types) (jp types) := by
      refine fun types => .look .kind fun k => ?_
      split
      · exact .skip flaw_locates fun _ => .bind (templateParts_locates h ctx _) fun parts =>
          .chain ((memberRest_locates h ctx _ _).more (by simp)) fun _ => .pure (by simp)
      · exact .bind (arguments_locates h ctx) fun _ =>
          .chain ((memberRest_locates h ctx _ _).more (by simp)) fun _ => .pure (by simp)
    have htyped : Locates text (offsetsOf chain) (do
        let types ← attempt (callTypeArguments R ctx)
        jp (types.getD [])) := by
      refine .bind (attempt_locates (callTypeArguments_locates h ctx)) fun types => ?_
      exact (hjp (types.getD [])).more (by simp)
    split
    · exact htyped
    · exact htyped
    · exact (hjp []).more (by simp)
  · refine .look (.atMark _) fun b => ?_
    split
    · exact .bind (arguments_locates h ctx) fun _ =>
        .chain ((memberRest_locates h ctx _ _).more (by simp)) fun _ => .pure (by simp)
    · exact .pure (by simp)

lemma callRest_locates (tree : Tree) : Locates text (offsetsOf tree) (callRest R ctx tree) := by
  refine .chain (memberRest_locates h ctx _ _) fun chain =>
    .chain (iterate_locates (callStep_locates h ctx) chain) fun chain => .pure fun p => ?_
  split <;> simp

lemma construction_locates : Locates text known (construction R ctx) := by
  refine .expectWord <| .eat fun b => ?_
  split
  · exact .expectWord <| .pure (by simp)
  refine .bind (h.primary _) fun start => .chain ((memberRest_locates h ctx _ _).more
    fun p => by simp) fun callee => .look (.atMark _) fun b => ?_
  dsimp only
  split
  · exact .fail_bind
  refine .flawIf <| .look (.atMark _) fun b => ?_
  split
  · exact .last (arguments_locates h ctx) (by simp)
  · exact .pure (by simp)

lemma importExpression_locates : Locates text known (importExpression R ctx) := by
  refine .expectWord <| .eat fun b => ?_
  extract_lets jp
  have hjp : ∀ u, Locates text known (jp u) := by
    refine fun _ => .bind (arguments_locates h ctx) fun _ => ?_
    split
    · exact .fail
    · exact .pure (by simp)
    · exact .fail
    · exact .pure (by simp)
    · exact .fail
  split
  · refine .eatWord fun b => ?_
    split
    · exact .pure (by simp)
    refine .look (.atWord _) fun b => .look (.atWord _) fun b' => ?_
    split
    · refine .advance <| .look (.atMark _) fun b => ?_
      split
      · exact hjp ()
      · exact .fail_bind
    · exact .fail_bind
  · exact hjp ()

lemma primary_locates : Locates text known (primary R ctx) := by
  intro c hc a c' hrun
  obtain ⟨t, c₁, ht, hrun⟩ := run_bind hrun
  cases ht
  have hconstant : Locates text known (do advance; return Tree.node .literal []) :=
    .advance <| .pure (by simp)
  have htemplate : Locates text known (do
      let parts ← templateParts R ctx false
      return Tree.node .template parts) :=
    .last (templateParts_locates h ctx _) (by simp)
  have run : ∀ {x : Rule Tree}, x.run c = some (a, c') → Locates text known x →
      Run text known (offsetsOf a) c c' := fun hrun hx => hx c hc a c' hrun
  split at hrun
  · exact run hrun (.skip advanceName_locates fun _ => .pure (by simp))
  iterate 6 exact run hrun hconstant
  iterate 2 exact run hrun htemplate
  · next hkind => exact patternLiteral_run hc (.inl hkind) hrun
  · next hkind => exact patternLiteral_run hc (.inr hkind) hrun
  · exact run hrun (array_locates h ctx)
  · exact run hrun (object_locates h ctx)
  · exact run hrun (parenthesized_locates h ctx)
  · next hkind =>
    obtain ⟨u, c₂, hu, hrun⟩ := run_bind hrun
    have hthis := this_run hc hkind hu
    cases hrun
    exact hthis.mono fun p => by simp
  · exact run hrun (.advance <| .look .kind fun _ => .flawIf <| .pure (by simp))
  · exact run hrun ((classFrom_locates h ctx [] _).more (by simp))
  · exact run hrun (.bind (decorators_locates h ctx) fun decorators =>
      (classFrom_locates h ctx decorators _).more (by simp))
  · exact run hrun (construction_locates h ctx)
  · exact run hrun (importExpression_locates h ctx)
  · exact run hrun (functionFrom_locates h ctx _ _)
  · refine run hrun (.look (.nextIs _) fun b => ?_)
    split
    · exact .advance <| functionFrom_locates h ctx _ _
    · exact .skip (bindingName_locates _) fun _ => .pure (by simp)

lemma leftHand_locates : Locates text known (leftHand R ctx) :=
  .bind (h.primary _) fun tree => (callRest_locates h ctx tree).more (by simp)

lemma update_locates : Locates text known (update R ctx) := by
  have hbefore : Locates text known (do
      advance
      let operand ← R.unary ctx
      unless operand.isSimpleTarget do failure
      return Tree.node .update [operand]) := by
    refine .advance <| .bind (h.unary _) fun operand => ?_
    split
    · exact .pure (by simp)
    · exact .fail_bind
  have hafter : ∀ operand : Tree, Locates text (known ++ offsetsOf operand) (do
      if ← onNewLine then return operand
      unless operand.isSimpleTarget do failure
      advance
      return Tree.node .update [operand]) := by
    refine fun operand => .look .onNewLine fun b => ?_
    split
    · exact .pure (by simp)
    split
    · exact .advance <| .pure (by simp)
    · exact .fail_bind
  refine .look .kind fun k => ?_
  split
  · exact hbefore
  · exact hbefore
  · refine .bind (h.leftHand _) fun operand => .look .kind fun k => ?_
    split
    · exact hafter operand
    · exact hafter operand
    · exact .pure (by simp)

lemma unary_locates : Locates text known (unary R ctx) := by
  have hbefore : Locates text known (do advance; return Tree.node .unary [← R.unary ctx]) :=
    .advance <| .last (h.unary _) (by simp)
  refine .look .kind fun k => ?_
  split
  any_goals exact hbefore
  · exact .advance <| .bind (innerType_locates h ctx) fun _ =>
      .expect <| .bind (h.unary _) fun _ => .pure fun p => by simp; omega
  · refine .look (.nextIs _) fun b => ?_
    split
    · exact .flawIf <| .advance <| .last (h.unary _) (by simp)
    · exact update_locates h ctx
  · exact update_locates h ctx

lemma binaryStep_locates (floor : Nat) (left : Tree) :
    Locates text (offsetsOf left) (binaryStep R ctx floor left) := by
  refine .skip joinGreater_locates fun _ => .look .kind fun k => ?_
  split
  · exact .pure (by simp)
  split
  · exact .pure (by simp)
  split
  · exact .pure (by simp)
  split
  · refine .look .onNewLine fun b => ?_
    split
    · exact .pure (by simp)
    · exact .advance <| .last (innerType_locates h ctx) (by simp)
  refine .advance <| .bind (h.binary _ _) fun right => ?_
  split
  · exact .flawIf <| .pure (by simp)
  · exact .pure (by simp)
  · exact .pure (by simp)
  · exact .flawIf <| .pure (by simp)
  · exact .pure (by simp)

lemma binary_locates (floor : Nat) : Locates text known (binary R ctx floor) := by
  refine .look .kind fun k => ?_
  extract_lets jp
  have hjp : ∀ first, Locates text (offsetsOf first) (jp first) := fun first =>
    iterate_locates (binaryStep_locates h ctx floor) first
  split
  · refine .advance <| .expectWord <| .bind (h.binary _ _) fun object => ?_
    split
    · exact .fail_bind
    · exact (hjp (.node .privateIn [object])).more (by simp)
  · exact .chain (h.unary _) hjp

omit h in
lemma passArrow_locates : Locates text known passArrow :=
  .look .token fun _ => .flawIf <| expect_locates _

lemma arrowHead_locates : Locates text known (arrowHead R ctx) :=
  .eatWord fun _ => .bind (typeParameters?_locates h _) fun _ =>
    .bind (parameters_locates h _ _) fun ⟨receiver, parameters⟩ => .flawIf <|
    .bind (resultType?_locates h _) fun _ => .skip passArrow_locates fun _ =>
    .pure fun p => by simp; omega

lemma arrowBody_locates (head : ArrowHead)
    (returnType : Bool) : Locates text (offsetsOf head) (arrowBody R ctx head returnType) := by
  refine .look (.atMark _) fun b => ?_
  split
  · exact .last (block_locates h _) (by simp)
  · exact .last (h.assignment _ _) (by simp)

lemma parenthesizedArrow?_locates (returnType : Bool) :
    Locates text known (parenthesizedArrow? R ctx returnType) := by
  refine .look (.lookahead _ _) fun guess => ?_
  split
  · exact .pure (by simp)
  · exact .bind (arrowHead_locates h ctx) fun head =>
      .chain ((arrowBody_locates h ctx head _).more (by simp)) fun _ => .pure (by simp)
  · intro c hc a c' hrun
    obtain ⟨start, c₁, hstart, hrun⟩ := run_bind hrun
    cases hstart
    obtain ⟨head, c₁, hhead, hrun⟩ := run_bind hrun
    have hfirst : Run text [] (offsetsOf head) c c₁ :=
      attempt_locates (arrowHead_locates h ctx) c hc head c₁ hhead
    split at hrun
    · cases hrun
      exact hfirst.andThen (.stay hfirst.lies fun p => by simp)
    · next head =>
      obtain ⟨arrow, c₂, harrow, hrun⟩ := run_bind hrun
      have hsecond : Run text (known ++ offsetsOf head) (offsetsOf arrow) c₁ c₂ :=
        (arrowBody_locates h ctx head _).more (fun p => by simp) c₁ hfirst.lies arrow c₂ harrow
      obtain ⟨b, c₃, hb, hrun⟩ := run_bind hrun
      cases hb
      split at hrun
      · cases hrun
        exact .stay hc fun p => by simp
      · cases hrun
        exact hfirst.andThen hsecond

lemma asyncArrow?_locates (returnType : Bool) :
    Locates text known (asyncArrow? R ctx returnType) := by
  refine .look (.lookahead _ _) fun begins => ?_
  split
  · exact .pure (by simp)
  · exact .advance <| .skip (bindingName_locates _) fun _ => .skip passArrow_locates fun _ =>
      .chain ((arrowBody_locates h ctx _ _).more (by simp)) fun _ => .pure (by simp)

omit h in
lemma startsYield_looks (ctx : Context) : Looks (startsYield ctx) := by
  refine .bind (.atWord _) fun b => ?_
  split
  · split
    · exact .pure
    · exact .nextIs _
  · exact .pure

lemma yieldExpression_locates : Locates text known (yieldExpression R ctx) := by
  refine .advance <| .flawIf <| .look .onNewLine fun b => ?_
  split
  · exact .pure (by simp)
  refine .eat fun delegates => .look .kind fun k => ?_
  extract_lets ends
  split
  · exact .pure (by simp)
  · exact .last (h.assignment _ _) (by simp)

lemma assignment_locates (returnType : Bool) :
    Locates text known (assignment R ctx returnType) := by
  refine .look (startsYield_looks ctx) fun b => ?_
  split
  · exact yieldExpression_locates h ctx
  refine .bind (parenthesizedArrow?_locates h ctx _) fun arrow => ?_
  cases arrow with
  | some arrow => exact .pure (by simp)
  | none =>
  refine .bind (asyncArrow?_locates h ctx _) fun arrow => ?_
  cases arrow with
  | some arrow => exact .pure (by simp)
  | none =>
  refine .bind (h.binary _ _) fun left => .look .kind fun k => ?_
  split
  · exact .skip passArrow_locates fun _ => (arrowBody_locates h ctx _ _).more (by simp)
  · split
    · split
      · next target htarget =>
        refine .advance <| .bind (h.assignment _ _) fun _ => .pure fun p => ?_
        have hcount : (offsetsOf target).count p ≤ (offsetsOf left).count p :=
          Tree.count_target? p htarget
        simp
        omega
      · exact .fail
    split
    · dsimp only
      split
      · exact .advance <| .last (h.assignment _ _) (by simp)
      · exact .fail_bind
    split
    · exact .advance <| .bind (h.assignment _ _) fun _ =>
        .expect <| .last (h.assignment _ _) (by simp)
    · exact .pure (by simp)
  · exact .pure (by simp)

lemma expression_locates : Locates text known (expression R ctx) := by
  refine .bind (h.assignment _ _) fun first =>
    .bind (many_locates (.eatThen (h.assignment _ _) (by simp) (by simp))) fun others =>
    .pure fun p => ?_
  split
  · simp; omega
  · simp

lemma declared_locates : Locates text known (declared R ctx) := by
  refine .look .kind fun k => .bind (h.pattern _) fun pattern => .eat fun definite =>
    .bind (annotation?_locates h ctx) fun type => .eat fun b => ?_
  extract_lets jp
  have hjp : ∀ value, Locates text
      (known ++ offsetsOf pattern ++ offsetsOf type ++ offsetsOf value) (jp value) :=
    fun value => .flawIf <| .pure (by simp)
  split
  · exact .bind (h.assignment _ _) fun value => (hjp [value]).more (by simp)
  · exact (hjp []).more (by simp)

lemma declaredList_locates : Locates text known (declaredList R ctx) :=
  .bind (declared_locates h ctx) fun first =>
    .last (many_locates (.eatThen (declared_locates h ctx) (by simp) (by simp))) (by simp)

omit h in
lemma checkValues_locates (ctx : Context) (constant : Bool) (declared : List Declared) :
    Locates text known (checkValues ctx constant declared) :=
  flawIf_locates _

omit h in
lemma offsetsOf_declaredTrees (declared : List Declared) :
    (declared.map (·.tree)).flatMap offsetsOf = declared.flatMap offsetsOf :=
  List.flatMap_map ..

lemma variableStatement_locates (constant : Bool) :
    Locates text known (variableStatement R ctx constant) :=
  .bind (declaredList_locates h ctx) fun _ => .skip (checkValues_locates _ _ _) fun _ =>
    .endStatement <| .pure fun p => by simp [offsetsOf_declaredTrees]

lemma condition_locates : Locates text known (condition R ctx) :=
  .expect <| .bind (h.expression _) fun _ => .expect <| .pure (by simp)

lemma countingLoop_locates (first : List Tree) :
    Locates text (offsetsOf first) (countingLoop R ctx first) := by
  refine .expect <| .look (.atMark _) fun b => ?_
  extract_lets jp
  have hjp : ∀ test, Locates text (offsetsOf first ++ offsetsOf test) (jp test) := by
    refine fun test => .expect <| .look (.atMark _) fun b => ?_
    extract_lets jp
    have hjp : ∀ step, Locates text (offsetsOf first ++ offsetsOf test ++ offsetsOf step)
        (jp step) := fun step =>
      .expect <| .last (h.statement _ _) (by simp)
    split
    · exact (hjp []).more (by simp)
    · exact .bind (h.expression _) fun step => (hjp [step]).more (by simp)
  split
  · exact (hjp []).more (by simp)
  · exact .bind (h.expression _) fun test => (hjp [test]).more (by simp)

lemma iteratingLoop_locates (first : List Tree)
    (awaits : Bool) : Locates text (offsetsOf first) (iteratingLoop R ctx first awaits) := by
  refine .look (.atWord _) fun overItems => .flawIf <| .advance ?_
  extract_lets jp
  have hjp : ∀ source, Locates text (offsetsOf first ++ offsetsOf source) (jp source) :=
    fun source => .expect <| .last (h.statement _ _) (by simp)
  split
  · exact .bind (h.assignment _ _) hjp
  · exact .bind (h.expression _) hjp

omit h in
lemma iterates_looks : Looks iterates :=
  .bind (.atWord _) fun _ => .bind (.atWord _) fun _ => .pure

lemma declaringLoop_locates (constant awaits : Bool) :
    Locates text known (declaringLoop R ctx constant awaits) := by
  refine .bind (declaredList_locates h _) fun declared => .look iterates_looks fun b => ?_
  have hknown : ∀ p, (offsetsOf (declared.map (·.tree))).count p ≤
      (known ++ offsetsOf declared).count p := fun p => by simp [offsetsOf_declaredTrees]
  split
  · exact .flawIf <| (iteratingLoop_locates h ctx _ _).more hknown
  · exact .skip (checkValues_locates _ _ _) fun _ => .flawIf <|
      (countingLoop_locates h ctx _).more hknown

lemma forLoop_locates : Locates text known (forLoop R ctx) := by
  refine .expectWord <| .look (.atWord _) fun awaits => ?_
  extract_lets jp
  have hjp : ∀ u, Locates text known (jp u) := by
    refine fun _ => .expect <| .look .kind fun k => ?_
    split
    · exact .flawIf <| (countingLoop_locates h ctx _).more (by simp)
    iterate 2 exact .advance <| declaringLoop_locates h ctx _ _
    refine .look (.nextIs _) fun b => ?_
    split
    · exact .advance <| declaringLoop_locates h ctx _ _
    refine .look (.nextIs _) fun b => ?_
    split
    · exact .advance <| declaringLoop_locates h ctx _ _
    refine .look (.nextIs _) fun b => .bind (h.expression _) fun first =>
      .look iterates_looks fun b' => ?_
    split
    · split
      · next target htarget =>
        refine .flawIf <| (iteratingLoop_locates h ctx _ _).more fun p => ?_
        have hcount : (offsetsOf target).count p ≤ (offsetsOf first).count p :=
          Tree.count_target? p htarget
        simp
        omega
      · exact .fail
    · exact .flawIf <| (countingLoop_locates h ctx _).more (by simp)
  split
  · exact .flawIf <| .advance <| hjp ()
  · exact hjp ()

lemma switchClause_locates : Locates text known (switchClause R ctx) := by
  refine .eatWord fun b => ?_
  extract_lets jp
  have hjp : ∀ test, Locates text (known ++ offsetsOf test) (jp test) := by
    refine fun test => .expect <| .last (many_locates (.look .kind fun k => ?_)) (by simp)
    split
    any_goals exact .pure (by simp)
    exact .last (h.statement _ _) (by simp)
  split
  · exact (hjp none).more (by simp)
  · exact .expectWord <| .bind (h.expression _) fun test => hjp (some test)

lemma switchStatement_locates : Locates text known (switchStatement R ctx) := by
  refine .expectWord <| .bind (condition_locates h ctx) fun subject =>
    .expect <| .bind (many_locates (.look .kind fun k => ?_)) fun clauses =>
    .expect <| .flawIf <| .pure fun p => ?_
  · split
    · exact .pure (by simp)
    · exact .pure (by simp)
    · exact .last (switchClause_locates h ctx) (by simp)
  · have hclauses : (clauses.map (·.2)).flatten.flatMap offsetsOf = clauses.flatMap offsetsOf := by
      rw [offsetsOf_flatten, List.flatMap_map]
      rfl
    simp [hclauses]

lemma tryStatement_locates : Locates text known (tryStatement R ctx) := by
  refine .expectWord <| .bind (block_locates h ctx) fun body => .eatWord fun b => ?_
  extract_lets handled bound
  have hhandled : ∀ handler, Locates text (known ++ offsetsOf body ++ offsetsOf handler)
      (handled handler) := by
    refine fun handler => .eatWord fun b => ?_
    extract_lets finished
    have hfinished : ∀ finalizer, Locates text
        (known ++ offsetsOf body ++ offsetsOf handler ++ offsetsOf finalizer)
        (finished finalizer) := by
      intro finalizer
      show Locates text _ (if _ then _ else _)
      split
      · exact .fail_bind
      · exact .pure fun p => by cases handler <;> cases finalizer <;> simp
    split
    · exact .bind (block_locates h ctx) fun finalizer => hfinished (some finalizer)
    · exact (hfinished none).more (by simp)
  split
  · refine .eat fun b => ?_
    have hbound : ∀ binding, Locates text (known ++ offsetsOf body ++ offsetsOf binding)
        (bound binding) := fun binding =>
      .bind (block_locates h ctx) fun handler =>
        (hhandled (some (binding ++ handler))).more (by simp)
    split
    · exact .bind (h.pattern _) fun pattern => .bind (annotation?_locates h ctx) fun type =>
        .expect <| (hbound (pattern :: type)).more (by simp)
    · exact (hbound []).more (by simp)
  · exact (hhandled none).more (by simp)

lemma interfaceRest_locates : Locates text known (interfaceRest R ctx) := by
  refine .skip (bindingName_locates _) fun _ =>
    .bind (typeParameters?_locates h ctx) fun generics =>
    .eatWord fun b => ?_
  extract_lets jp
  have hjp : ∀ bases, Locates text (known ++ offsetsOf generics ++ offsetsOf bases) (jp bases) :=
    fun bases => .last (typeMembers_locates h ctx) (by simp)
  split
  · exact .bind (innerType_locates h ctx) fun first =>
      .bind (many_locates (.eatThen (innerType_locates h ctx) (by simp) (by simp))) fun others =>
      (hjp (first :: others)).more (by simp)
  · exact (hjp []).more (by simp)

lemma aliasRest_locates : Locates text known (aliasRest R ctx) :=
  .skip (bindingName_locates _) fun _ => .bind (typeParameters?_locates h ctx) fun _ =>
    .expect <| .bind (innerType_locates h ctx) fun _ =>
    .endStatement <| .pure (by simp)

lemma enumRest_locates : Locates text known (enumRest R ctx) :=
  .skip (bindingName_locates _) fun _ => .expect <|
    .bind (list_locates _ (.bind (propertyName_locates h ctx) fun _ =>
      .last (initializer?_locates h ctx) (by simp))) fun ⟨members, trailing⟩ =>
    .expect <| .pure (by simp)

lemma namespaceRest_locates : Locates text known (namespaceRest R ctx) := by
  refine .look .kind fun k => ?_
  extract_lets jp
  have hjp : ∀ u, Locates text known (jp u) := by
    refine fun _ => .look (.atMark _) fun b => ?_
    split
    · exact .last (block_locates h ctx) (by simp)
    · exact .endStatement <| .pure (by simp)
  split
  · exact .advance <| hjp ()
  · exact .skip (bindingName_locates _) fun _ =>
      .skip (many_locates (.eatThen wordName_locates (by simp) (by simp))) fun _ => hjp ()

lemma typeDeclaration?_locates : Locates text known (typeDeclaration? R ctx) := by
  have hdeclare : ∀ {test : Token → Bool} {x : Rule Tree}, (∀ {known}, Locates text known x) →
      Locates text known (do
        if ← nextIs test then
          advance
          return some (← x)
        return none) := by
    intro test x hx
    refine .look (.nextIs _) fun b => ?_
    split
    · exact .advance <| .last hx (by simp)
    · exact .pure (by simp)
  refine .look .kind fun k => ?_
  split
  · exact hdeclare (interfaceRest_locates h ctx)
  · exact hdeclare (aliasRest_locates h ctx)
  iterate 2 exact hdeclare (namespaceRest_locates h ctx)
  · exact .advance <| .last (enumRest_locates h ctx) (by simp)
  · refine .look (.nextIs _) fun b => ?_
    split
    · exact .advance <| .advance <| .last (enumRest_locates h ctx) (by simp)
    · exact .pure (by simp)
  · exact hdeclare ((classFrom_locates h ctx [] _).more (by simp))
  · exact hdeclare (h.statement _ _)
  · exact .pure (by simp)

lemma plainStatement_locates : Locates text known (plainStatement R ctx) := by
  refine .bind (h.expression _) fun e => ?_
  extract_lets jp
  have hjp : ∀ u, Locates text (known ++ offsetsOf e) (jp u) := fun _ =>
    .endStatement <| .pure (by simp)
  split
  · refine .eat fun b => ?_
    split
    · exact h.statement _ _
    · exact hjp ()
  · exact hjp ()

lemma statement_locates (place : Place) : Locates text known (statement R ctx place) := by
  have hjump : Locates text known (do
      advance
      if !(← canEndStatement) then
        let _ ← bindingName ctx
      endStatement
      return Tree.node .statement []) := by
    refine .advance <| .look .canEndStatement fun b => ?_
    extract_lets jp
    have hjp : ∀ u, Locates text known (jp u) := fun _ => .endStatement <| .pure (by simp)
    split
    · exact .skip (bindingName_locates _) fun _ => hjp ()
    · exact hjp ()
  have hloop : Locates text known (do
      advance
      let test ← condition R ctx
      let body ← R.statement ctx .alone
      return Tree.node .statement [test, body]) :=
    .advance <| .bind (condition_locates h ctx) fun _ => .last (h.statement _ _) (by simp)
  refine .look .kind fun k => ?_
  split
  · exact .last (block_locates h ctx) (by simp)
  · exact .advance <| .pure (by simp)
  · refine .advance <| .bind (condition_locates h ctx) fun test =>
      .bind (h.statement _ _) fun yes => .eatWord fun b => ?_
    split
    · exact .last (h.statement _ _) (by simp)
    · exact .pure (by simp)
  · exact .advance <| .bind (h.statement _ _) fun _ =>
      .expectWord <| .bind (condition_locates h ctx) fun _ =>
      .eat fun _ => .pure (by simp)
  · exact hloop
  · exact hloop
  · exact forLoop_locates h ctx
  · exact hjump
  · exact hjump
  · exact switchStatement_locates h ctx
  · exact .advance <| .look .onNewLine fun _ => .flawIf <|
      .bind (h.expression _) fun _ => .endStatement <| .pure (by simp)
  · exact tryStatement_locates h ctx
  · exact .advance <| .endStatement <| .pure (by simp)
  · refine .advance <| .flawIf <| .look .canEndStatement fun b => ?_
    extract_lets jp
    have hjp : ∀ value, Locates text (known ++ offsetsOf value) (jp value) := fun value =>
      .endStatement <| .pure (by simp)
    split
    · exact (hjp []).more (by simp)
    · exact .bind (h.expression _) fun value => (hjp [value]).more (by simp)
  · exact .flawIf <| (classFrom_locates h ctx [] _).more (by simp)
  · exact .flawIf <| .bind (decorators_locates h ctx) fun decorators => .eatWord fun _ =>
      (classFrom_locates h ctx decorators _).more (by simp)
  · exact .look (.nextIs _) fun _ => .flawIf <| functionFrom_locates h ctx _ _
  · exact .advance <| variableStatement_locates h ctx _
  · exact .fail
  refine .bind (typeDeclaration?_locates h ctx) fun declaration => ?_
  cases declaration with
  | some declaration => exact .pure (by simp)
  | none =>
  have hvariable : ∀ (condition constant : Bool),
      Locates text (known ++ offsetsOf (none : Option Tree))
      (do flawIf condition; advance; variableStatement R ctx constant) := fun _ _ =>
    .flawIf <| .advance <| variableStatement_locates h ctx _
  dsimp only
  split
  · exact hvariable _ _
  refine .look (.nextIs _) fun b => ?_
  split
  · exact hvariable _ _
  refine .look (.nextIs _) fun b => ?_
  split
  · exact hvariable _ _
  refine .look (.lookahead _ _) fun b => ?_
  split
  · exact .flawIf <| .advance <| .advance <| variableStatement_locates h ctx _
  refine .look (.nextIs _) fun b => ?_
  split
  · exact .flawIf <| .advance <| functionFrom_locates h ctx _ _
  refine .look (.nextIs _) fun b => ?_
  split
  · exact .fail
  · exact plainStatement_locates h ctx

end Rule

lemma Rules.step_locate {text} {R : Rules} (h : R.Locate text) :
    R.step.Locate text where
  expression ctx := Rule.expression_locates h ctx
  assignment ctx returnType := Rule.assignment_locates h ctx returnType
  binary ctx floor := Rule.binary_locates h ctx floor
  unary ctx := Rule.unary_locates h ctx
  leftHand ctx := Rule.leftHand_locates h ctx
  primary ctx := Rule.primary_locates h ctx
  type ctx := Rule.type_locates h ctx
  pattern ctx := Rule.pattern_locates h ctx
  statement ctx place := Rule.statement_locates h ctx place

lemma Rules.upTo_locate (text : List Char) (depth : Nat) : (Rules.upTo depth).Locate text := by
  induction depth with
  | zero =>
    exact ⟨fun _ => .fail, fun _ _ => .fail, fun _ _ => .fail, fun _ => .fail, fun _ => .fail,
      fun _ => .fail, fun _ => .fail, fun _ => .fail, fun _ _ => .fail⟩
  | succ depth ih => exact step_locate ih

end SceneView.Script
