import SceneView.Proofs.Script.Occurrence
import SceneView.Proofs.Script.Position
import SceneView.Script.Statement

/-!
# Rules keep track of `this`

A rule that succeeds goes on in the text. If it leaves no flaw, every `this` of its answer was known
before, or stands in the text between the two cursors; and no two of them overlap. The property goes
through the ways in which rules are put together.
-/

open List

namespace SceneView.Script

/-- Answers of rules, with the offsets of every `this` in the trees they hold. -/
class HasOffsets (α : Type) where
  offsetsOf : α → List Nat

export HasOffsets (offsetsOf)

/-- Answers that hold no tree. -/
class Bare (α : Type) [HasOffsets α] : Prop where
  offsetsOf_eq : ∀ a : α, offsetsOf a = []

section Instances

variable {α β : Type} [HasOffsets α] [HasOffsets β]

/-- The instance of a type that holds no tree. -/
abbrev HasOffsets.none (α : Type) : HasOffsets α := ⟨fun _ => []⟩

instance : HasOffsets Unit := .none _
instance : HasOffsets Bool := .none _
instance : HasOffsets Nat := .none _
instance : HasOffsets String := .none _
instance : HasOffsets Keyword := .none _
instance : HasOffsets Kind := .none _
instance : HasOffsets Token := .none _
instance : HasOffsets Cursor := .none _
instance : HasOffsets Rule.Guess := .none _
instance : Bare Unit := ⟨fun _ => rfl⟩
instance : Bare Bool := ⟨fun _ => rfl⟩
instance : Bare Nat := ⟨fun _ => rfl⟩
instance : Bare String := ⟨fun _ => rfl⟩
instance : Bare Keyword := ⟨fun _ => rfl⟩
instance : Bare Kind := ⟨fun _ => rfl⟩
instance : Bare Token := ⟨fun _ => rfl⟩
instance : Bare Cursor := ⟨fun _ => rfl⟩
instance : Bare Rule.Guess := ⟨fun _ => rfl⟩
instance : HasOffsets Tree := ⟨Tree.offsets⟩
instance : HasOffsets (List α) := ⟨List.flatMap offsetsOf⟩
instance : HasOffsets (Option α) := ⟨fun a => a.elim [] offsetsOf⟩
instance : HasOffsets (α × β) := ⟨fun a => offsetsOf a.1 ++ offsetsOf a.2⟩
instance : HasOffsets Rule.Chain := ⟨fun a => a.tree.offsets⟩
instance : HasOffsets Rule.ArrowHead := ⟨fun a => offsetsOf a.parts⟩
instance : HasOffsets Rule.Declared := ⟨fun a => a.tree.offsets⟩
instance : HasOffsets Rule.FunctionRest := ⟨fun a => a.tree.offsets⟩

instance [Bare α] : Bare (List α) where
  offsetsOf_eq _ := flatMap_eq_nil_iff.2 fun x _ => Bare.offsetsOf_eq x

instance [Bare α] : Bare (Option α) where
  offsetsOf_eq
    | Option.none => rfl
    | some a => Bare.offsetsOf_eq a

@[simp]
lemma offsetsOf_bare [Bare α] (a : α) : offsetsOf a = [] := Bare.offsetsOf_eq a

@[simp]
lemma offsetsOf_this (start : Nat) : offsetsOf (Tree.this start) = [start] := rfl

@[simp]
lemma offsetsOf_name (text : String) : offsetsOf (Tree.name text) = [] := rfl

@[simp]
lemma offsetsOf_member (object : Tree) (property : String) :
    offsetsOf (Tree.member object property) = offsetsOf object := rfl

@[simp]
lemma offsetsOf_node (form : Form) (parts : List Tree) :
    offsetsOf (Tree.node form parts) = parts.flatMap offsetsOf :=
  Tree.offsets_node form parts

@[simp]
lemma offsetsOf_chain (a : Rule.Chain) : offsetsOf a = offsetsOf a.tree := rfl

@[simp]
lemma offsetsOf_arrowHead (a : Rule.ArrowHead) : offsetsOf a = a.parts.flatMap offsetsOf := rfl

@[simp]
lemma offsetsOf_declared (a : Rule.Declared) : offsetsOf a = offsetsOf a.tree := rfl

@[simp]
lemma offsetsOf_functionRest (a : Rule.FunctionRest) : offsetsOf a = offsetsOf a.tree := rfl

@[simp]
lemma offsetsOf_list (a : List α) : offsetsOf a = a.flatMap offsetsOf := rfl

@[simp]
lemma offsetsOf_none : offsetsOf (none : Option α) = [] := rfl

@[simp]
lemma offsetsOf_some (a : α) : offsetsOf (some a) = offsetsOf a := rfl

@[simp]
lemma offsetsOf_pair (a : α) (b : β) : offsetsOf (a, b) = offsetsOf a ++ offsetsOf b := rfl

@[simp]
lemma offsetsOf_toList (a : Option α) : a.toList.flatMap offsetsOf = offsetsOf a := by
  cases a with
  | none => rfl
  | some a => exact append_nil _

@[simp]
lemma offsetsOf_getD (a : Option (List α)) : (a.getD []).flatMap offsetsOf = offsetsOf a := by
  cases a <;> rfl

@[simp]
lemma offsetsOf_flatten (a : List (List α)) :
    a.flatten.flatMap offsetsOf = a.flatMap offsetsOf := by
  induction a with
  | nil => rfl
  | cons x a ih =>
    rw [flatten_cons, flatMap_append, ih]
    rfl

end Instances

/-- Whether two stretches of four characters are apart. -/
def Apart (i j : Nat) : Prop := i + 4 ≤ j ∨ j + 4 ≤ i

/-- The offsets are those of words `this` between two places of the text, apart from each other. -/
structure Stand (text : List Char) (low high : Nat) (offsets : List Nat) : Prop where
  apart : offsets.Pairwise Apart
  between : ∀ i ∈ offsets, low ≤ i ∧ i + 4 ≤ high
  spelled : ∀ i ∈ offsets, thisChars <+: text.drop i

/-- A run that goes on from one cursor to another. Unless a flaw is left, each offset of its answer
is a known one or stands between the cursors. -/
structure Run (text : List Char) (known found : List Nat) (c c' : Cursor) : Prop where
  lies : c'.Lies text
  start_le : c.token.start ≤ c'.token.start
  sound : c'.flawed = false → c.flawed = false ∧
    ∃ new, Stand text c.token.start c'.token.start new ∧
      ∀ p, found.count p ≤ known.count p + new.count p

namespace Stand

variable {text : List Char} {low mid high : Nat} {new new' : List Nat}

lemma nil : Stand text low high [] := ⟨.nil, nofun, nofun⟩

lemma append (h : Stand text low mid new) (h' : Stand text mid high new') (hlow : low ≤ mid)
    (hhigh : mid ≤ high) : Stand text low high (new ++ new') where
  apart := by
    refine pairwise_append.2 ⟨h.apart, h'.apart, fun i hi j hj => .inl ?_⟩
    have hi := h.between i hi
    have hj := h'.between j hj
    omega
  between i hi := by
    obtain hi | hi := mem_append.1 hi
    · have := h.between i hi
      omega
    · have := h'.between i hi
      omega
  spelled i hi := by
    obtain hi | hi := mem_append.1 hi
    · exact h.spelled i hi
    · exact h'.spelled i hi

end Stand

namespace Run

variable {text : List Char} {known found found' : List Nat} {c c' c'' : Cursor}

lemma stay (h : c.Lies text) (hfound : ∀ p, found.count p ≤ known.count p) :
    Run text known found c c where
  lies := h
  start_le := Nat.le_refl _
  sound hflaw := ⟨hflaw, [], .nil, fun p => by simpa using hfound p⟩

lemma trans {held} (h : Run text known found c c') (h' : Run text (held ++ found) found' c' c'') :
    Run text (held ++ known) found' c c'' where
  lies := h'.lies
  start_le := h.start_le.trans h'.start_le
  sound hflaw := by
    obtain ⟨hflaw', new', hstand', hcount'⟩ := h'.sound hflaw
    obtain ⟨hflaw, new, hstand, hcount⟩ := h.sound hflaw'
    refine ⟨hflaw, new ++ new', hstand.append hstand' h.start_le h'.start_le, fun p => ?_⟩
    have hcount := hcount p
    have hcount' := hcount' p
    simp only [count_append] at hcount hcount' ⊢
    omega

lemma mono (h : Run text known found c c') {known'} (hknown : ∀ p, known.count p ≤ known'.count p) :
    Run text known' found c c' where
  lies := h.lies
  start_le := h.start_le
  sound hflaw := by
    obtain ⟨hflaw, new, hstand, hcount⟩ := h.sound hflaw
    exact ⟨hflaw, new, hstand, fun p => (hcount p).trans (Nat.add_le_add_right (hknown p) _)⟩

lemma andThen (h : Run text [] found c c') (h' : Run text (known ++ found) found' c' c'') :
    Run text known found' c c'' := by
  have hboth := h.trans h'
  rwa [append_nil] at hboth

lemma keep (h : Run text known found c c') : Run text known known c c' where
  lies := h.lies
  start_le := h.start_le
  sound hflaw := by
    obtain ⟨hflaw, new, hstand, -⟩ := h.sound hflaw
    exact ⟨hflaw, new, hstand, fun p => Nat.le_add_right _ _⟩

lemma flaw (h : Run text known found c c') : Run text known found c { c' with flawed := true } where
  lies := ⟨h.lies.total, h.lies.start_le, h.lies.spells⟩
  start_le := h.start_le
  sound := nofun

end Run

namespace Rule

variable {α β : Type} [HasOffsets α] [HasOffsets β] {text : List Char} {known : List Nat}
  {x : Rule α} {f : α → Rule β}

omit [HasOffsets α] [HasOffsets β] in
lemma run_bind {c r} (h : (x >>= f).run c = some r) :
    ∃ a c', x.run c = some (a, c') ∧ (f a).run c' = some r := by
  obtain ⟨⟨a, c'⟩, hx, hf⟩ := Option.bind_eq_some_iff.1 h
  exact ⟨a, c', hx, hf⟩

/-- Every run of the rule keeps track of `this`, where the given offsets are known. -/
def Locates (text : List Char) (known : List Nat) (x : Rule α) : Prop :=
  ∀ c : Cursor, c.Lies text → ∀ a c', x.run c = some (a, c') → Run text known (offsetsOf a) c c'

namespace Locates

lemma more {known'} (h : Locates text known x) (hknown : ∀ p, known.count p ≤ known'.count p) :
    Locates text known' x :=
  fun c hc a c' hrun => (h c hc a c' hrun).mono hknown

lemma pure {a} (h : ∀ p, (offsetsOf a).count p ≤ known.count p) :
    Locates text known (pure a : Rule α) := by
  intro c hc b c' hrun
  cases hrun
  exact .stay hc h

lemma done [Bare α] (a : α) : Locates text known (Pure.pure a : Rule α) :=
  pure (by simp)

lemma fail : Locates text known (failure : Rule α) := by
  intro c hc a c' hrun
  cases hrun

lemma doneIf [Bare α] {b : Bool} {a : α} :
    Locates text known (if b then Pure.pure a else failure : Rule α) := by
  split
  · exact .done _
  · exact .fail

omit [HasOffsets α] in
lemma fail_bind : Locates text known ((failure : Rule α) >>= f) := by
  intro c hc a c' hrun
  cases hrun

lemma bind (hx : Locates text [] x) (hf : ∀ a, Locates text (known ++ offsetsOf a) (f a)) :
    Locates text known (x >>= f) := by
  intro c hc b c'' hrun
  obtain ⟨a, c', hx', hf'⟩ := run_bind hrun
  have hfirst := hx c hc a c' hx'
  exact hfirst.andThen (hf a c' hfirst.lies b c'' hf')

lemma last {g : α → β} (hx : Locates text [] x)
    (hg : ∀ a p, (offsetsOf (g a)).count p ≤ (known ++ offsetsOf a).count p) :
    Locates text known (x >>= fun a => Pure.pure (g a)) :=
  .bind hx fun a => .pure (hg a)

lemma chain (hx : Locates text known x) (hf : ∀ a, Locates text (offsetsOf a) (f a)) :
    Locates text known (x >>= f) := by
  intro c hc b c'' hrun
  obtain ⟨a, c', hx', hf'⟩ := run_bind hrun
  have hfirst := hx c hc a c' hx'
  have hrest : Run text ([] ++ offsetsOf a) _ c' c'' := hf a c' hfirst.lies b c'' hf'
  exact hfirst.trans hrest

lemma skip [Bare α] (hx : Locates text [] x) (hf : ∀ a, Locates text known (f a)) :
    Locates text known (x >>= f) := by
  refine bind hx fun a => ?_
  rw [offsetsOf_bare, append_nil]
  exact hf a

end Locates

/-- The rule always answers and stays where it is. -/
def Looks {α : Type} (x : Rule α) : Prop :=
  ∀ c, ∃ a, x.run c = some (a, c)

namespace Looks

omit [HasOffsets α] [HasOffsets β]

lemma pure {a} : Looks (Pure.pure a : Rule α) := fun _ => ⟨a, rfl⟩

lemma bind (hx : Looks x) (hf : ∀ a, Looks (f a)) : Looks (x >>= f) := by
  intro c
  obtain ⟨a, ha⟩ := hx c
  obtain ⟨b, hb⟩ := hf a c
  exact ⟨b, Option.bind_eq_some_iff.2 ⟨_, ha, hb⟩⟩

lemma get : Looks (MonadState.get : Rule Cursor) := fun c => ⟨c, rfl⟩

lemma token : Looks token := fun c => ⟨c.token, rfl⟩

lemma kind : Looks kind := fun c => ⟨c.token.kind, rfl⟩

lemma onNewLine : Looks onNewLine := fun c => ⟨c.token.newline, rfl⟩

lemma atMark (m : Mark) : Looks (atMark m) := fun c => ⟨c.token.kind == .mark m, rfl⟩

lemma atWord (k : Keyword) : Looks (atWord k) := fun c => ⟨c.token.kind == .keyword k, rfl⟩

lemma nextIs (test : Token → Bool) : Looks (nextIs test) := fun c => ⟨test c.next.token, rfl⟩

lemma bound : Looks bound := fun c => ⟨c.rest.length + 2, rfl⟩

lemma lookahead (default : α) (x : Rule α) : Looks (lookahead default x) := by
  intro c
  unfold Rule.lookahead
  simp only [StateT.run]
  cases x c with
  | none => exact ⟨default, rfl⟩
  | some r => exact ⟨r.1, rfl⟩

lemma canEndStatement : Looks canEndStatement :=
  .bind .token fun _ => .pure

end Looks

namespace Locates

lemma look [Bare α] (hx : Looks x) (hf : ∀ a, Locates text known (f a)) :
    Locates text known (x >>= f) := by
  refine skip (fun c hc a c' hrun => ?_) hf
  obtain ⟨b, hb⟩ := hx c
  rw [hb] at hrun
  cases hrun
  exact .stay hc fun p => by simp

end Locates

lemma flaw_locates : Locates text known flaw := by
  intro c hc a c' hrun
  cases hrun
  exact (Run.stay hc fun p => by simp).flaw

lemma flawIf_locates (condition : Bool) : Locates text known (flawIf condition) := by
  cases condition with
  | false => exact .done _
  | true => exact flaw_locates

lemma advanceName_locates : Locates text known advanceName := by
  intro c hc a c' hrun
  cases hrun
  refine ⟨hc.next, hc.start_le_next, fun hflaw => ⟨?_, [], .nil, fun p => by simp⟩⟩
  have hnext : (c.flawed || _ || _) = false := hflaw
  simp only [Bool.or_eq_false_iff] at hnext
  exact hnext.1.1

lemma advance_locates : Locates text known advance := by
  refine .look .token fun t => ?_
  split
  · exact .skip (flawIf_locates _) fun _ => advanceName_locates
  · exact .skip (.done ()) fun _ => advanceName_locates

lemma this_run {c c' u} (hc : c.Lies text) (hkind : c.token.kind = .keyword .thisKw)
    (hrun : advance.run c = some (u, c')) : Run text [] [c.token.start] c c' := by
  have hadvance : Run text [] [] c c' := advance_locates c hc u c' hrun
  refine ⟨hadvance.lies, hadvance.start_le, fun hflaw => ⟨(hadvance.sound hflaw).1, [c.token.start],
    ?_, fun p => by simp⟩⟩
  have hescaped : c.token.escaped = false ∧ c' = c.next := by
    unfold advance at hrun
    obtain ⟨t, c₁, ht, hrun⟩ := run_bind hrun
    cases ht
    rw [hkind] at hrun
    cases hescaped : c.token.escaped with
    | false =>
      rw [hescaped] at hrun
      cases hrun
      exact ⟨rfl, rfl⟩
    | true =>
      rw [hescaped] at hrun
      cases hrun
      simp [Cursor.next] at hflaw
  obtain ⟨hescaped, rfl⟩ := hescaped
  have hdrop := hc.drop_eq_this hkind hescaped
  have hnext := hc.this_le_next hkind hescaped
  refine ⟨pairwise_singleton _ _, fun i hi => ?_, fun i hi => ?_⟩
  · obtain rfl := mem_singleton.1 hi
    exact ⟨Nat.le_refl _, hnext⟩
  · obtain rfl := mem_singleton.1 hi
    exact ⟨_, hdrop.symm⟩

lemma eat_locates (m : Mark) : Locates text known (eat m) := by
  refine .look (.atMark m) fun b => ?_
  split
  · exact .skip advance_locates fun _ => .done _
  · exact .done _

lemma eatWord_locates (k : Keyword) : Locates text known (eatWord k) := by
  refine .look (.atWord k) fun b => ?_
  split
  · exact .skip advance_locates fun _ => .done _
  · exact .done _

lemma expect_locates (m : Mark) : Locates text known (expect m) := by
  exact .skip (eat_locates m) fun _ => .doneIf

lemma expectWord_locates (k : Keyword) : Locates text known (expectWord k) := by
  exact .skip (eatWord_locates k) fun _ => .doneIf

lemma endStatement_locates : Locates text known endStatement := by
  refine .skip (eat_locates _) fun b => ?_
  split
  · exact .done _
  · exact .look .canEndStatement fun _ => .doneIf

namespace Locates

variable {m : Mark} {k : Keyword} {condition : Bool} {f : Unit → Rule β} {g : Bool → Rule β}
  (hf : Locates text known (f ())) (hg : ∀ b, Locates text known (g b))

include hf

lemma flawIf : Locates text known (Rule.flawIf condition >>= f) :=
  .skip (flawIf_locates _) fun _ => hf

lemma advance : Locates text known (Rule.advance >>= f) :=
  .skip advance_locates fun _ => hf

lemma expect : Locates text known (Rule.expect m >>= f) :=
  .skip (expect_locates _) fun _ => hf

lemma expectWord : Locates text known (Rule.expectWord k >>= f) :=
  .skip (expectWord_locates _) fun _ => hf

lemma endStatement : Locates text known (Rule.endStatement >>= f) :=
  .skip endStatement_locates fun _ => hf

omit hf
include hg

lemma eat : Locates text known (Rule.eat m >>= g) :=
  .skip (eat_locates _) hg

lemma eatWord : Locates text known (Rule.eatWord k >>= g) :=
  .skip (eatWord_locates _) hg

omit hg in
lemma eatThen {part : α → β} {none : β} (hx : Locates text [] x)
    (hpart : ∀ a p, (offsetsOf (part a)).count p ≤ (known ++ offsetsOf a).count p)
    (hnone : ∀ p, (offsetsOf none).count p ≤ known.count p) :
    Locates text known (do
      if ← Rule.eat m then return part (← x) else return none) := by
  refine .eat fun b => ?_
  split
  · exact .last hx hpart
  · exact .pure hnone

end Locates

lemma bindingName_locates (ctx : Context) : Locates text known (bindingName ctx) := by
  refine .look .token fun t => ?_
  dsimp only
  split
  · exact .flawIf <| .flawIf <| .skip advanceName_locates fun _ => .done _
  · exact .fail_bind

lemma wordName_locates : Locates text known wordName := by
  refine .look .token fun t => ?_
  dsimp only
  split
  · exact .skip advanceName_locates fun _ => .done _
  · exact .fail_bind

lemma Run.reread {c kind left} (h : (c.reread kind left).Lies text) :
    Run text known [] c (c.reread kind left) where
  lies := h
  start_le := Nat.le_refl _
  sound hflaw := by
    have hreread : (c.flawed || _) = false := hflaw
    exact ⟨(Bool.or_eq_false_iff.1 hreread).1, [], .nil, fun p => by simp⟩

lemma joinGreater_locates : Locates text known joinGreater := by
  intro c hc a c' hrun
  by_cases hkind : c.token.kind = .mark .greater
  · have hrun' : joinGreater.run c =
        some ((), c.reread (.mark (readGreater c.rest).1) (readGreater c.rest).2) := by
      simp [joinGreater, atMark, hkind]
    rw [hrun'] at hrun
    cases hrun
    refine Run.reread (hc.reread_mark ?_)
    rw [hc.spells.mark _ hkind]
    exact readGreater_spelled c.rest
  · have hrun' : joinGreater.run c = some ((), c) := by
      simp [joinGreater, atMark, hkind]
    rw [hrun'] at hrun
    cases hrun
    exact .stay hc fun p => by simp

lemma splitLess_locates : Locates text known splitLess := by
  intro c hc a c' hrun
  have hstep : ∀ {m : Mark} {left : List Char}, c.token.kind = .mark m →
      m.chars ++ c.rest = '<' :: left → Run text known [] c (c.reread (.mark .less) left) := by
    intro m left hkind hchars
    refine Run.reread (hc.reread_mark ?_)
    rw [hc.spells.mark m hkind]
    exact hchars
  obtain ⟨k, c₁, hkind, hrun⟩ := run_bind hrun
  cases hkind
  split at hrun
  iterate 3
    next hkind =>
    cases hrun
    exact hstep hkind rfl
  · cases hrun
    exact .stay hc fun p => by simp

lemma reopen_locates {x y : Rule α} (hx : Locates text known x) :
    Locates text known (do
      if ← atMark .rightBrace then
        modify fun c =>
          let (kind, left) := readTemplate false (c.rest.length + 1) true c.rest
          c.reread kind left
        x
      else
        let _ ← (failure : Rule Unit)
        y) := by
  intro c hc a c' hrun
  obtain ⟨b, c₁, hb, hrun⟩ := run_bind hrun
  cases hb
  dsimp only at hrun
  split at hrun
  · next hkind =>
    set t := readTemplate false (c.rest.length + 1) true c.rest with ht
    have hlies : (c.reread t.1 t.2).Lies text :=
      hc.reread_inert (eq_of_beq hkind) rfl (readTemplate_isInert _ _ _ _)
        (readTemplate_suffix _ _ _ _)
    have hfirst : Run text [] [] c (c.reread t.1 t.2) := Run.reread hlies
    have hrest : Run text (known ++ []) _ (c.reread t.1 t.2) c' :=
      (hx _ hlies a c' hrun).mono fun p => by simp
    exact hfirst.andThen hrest
  · cases hrun

lemma patternLiteral_run {c c' : Cursor} {a} (hc : c.Lies text)
    (hkind : c.token.kind = .mark .slash ∨ c.token.kind = .mark .slashAssign)
    (hrun : patternLiteral.run c = some (a, c')) : Run text known (offsetsOf a) c c' := by
  set body := if c.token.kind == .mark .slashAssign then '=' :: c.rest else c.rest with hbody
  have hdrop : ∃ m, c.token.kind = .mark m ∧ m.chars ++ c.rest = Mark.slash.chars ++ body := by
    obtain hkind | hkind := hkind
    iterate 2 exact ⟨_, hkind, by rw [hbody, hkind]; rfl⟩
  obtain ⟨m, hm, hchars⟩ := hdrop
  have hlies := hc.reread_inert hm hchars (readPattern_isInert false false body)
    (readPattern_suffix false false body)
  have hafter : Locates text (known ++ []) (do
      if (← kind) == .pattern then
        advance
        return Tree.node .literal []
      else
        let _ ← (failure : Rule Unit)
        advance
        return Tree.node .literal []) := by
    refine .look .kind fun k => ?_
    split
    · exact .advance <| .pure (by simp)
    · exact .fail_bind
  obtain ⟨u, c₁, hu, hrest⟩ := run_bind hrun
  cases hu
  have hfirst : Run text [] [] c _ := Run.reread hlies
  exact hfirst.andThen (hafter _ hlies a c' hrest)

lemma attempt_locates (hx : Locates text [] x) : Locates text known (attempt x) := by
  intro c hc a c' hrun
  unfold attempt StateT.run at hrun
  dsimp only at hrun
  split at hrun
  · next hb =>
    cases hrun
    exact (hx c hc _ _ hb).mono fun p => by simp
  · cases hrun
    exact .stay hc fun p => by simp

lemma repeatUpTo_locates {step : Rule (Option α)} (hstep : Locates text [] step) (fuel : Nat) :
    Locates text known (repeatUpTo step fuel) := by
  induction fuel generalizing known with
  | zero => exact .fail
  | succ fuel ih =>
    refine .bind hstep fun a => ?_
    cases a with
    | none => exact .pure (by simp)
    | some a => exact .last ih (by simp)

lemma many_locates {step : Rule (Option α)} (hstep : Locates text [] step) :
    Locates text known (many step) :=
  .look .bound fun _ => repeatUpTo_locates hstep _

lemma iterateUpTo_locates {step} (hstep : ∀ a, Locates text (offsetsOf a) (step a)) (fuel : Nat)
    (a : α) : Locates text (offsetsOf a) (iterateUpTo step fuel a) := by
  induction fuel generalizing a with
  | zero => exact .fail
  | succ fuel ih =>
    intro c hc b c'' hrun
    obtain ⟨a', c', hstep', hrest⟩ := run_bind hrun
    have hfirst := hstep a c hc a' c' hstep'
    cases a' with
    | none =>
      cases hrest
      exact hfirst.keep
    | some a' =>
      have hrest : Run text ([] ++ offsetsOf a') _ c' c'' := ih a' c' hfirst.lies b c'' hrest
      exact hfirst.trans hrest

lemma iterate_locates {step} (hstep : ∀ a, Locates text (offsetsOf a) (step a)) (a : α) :
    Locates text (offsetsOf a) (iterate step a) :=
  .look .bound fun _ => iterateUpTo_locates hstep _ a

lemma listRest_locates {item : Rule α} (close : Mark) (hitem : Locates text [] item) (fuel : Nat) :
    Locates text known (listRest close item fuel) := by
  induction fuel generalizing known with
  | zero => exact .fail
  | succ fuel ih =>
    refine .look (.atMark _) fun b => ?_
    split
    · exact .pure (by simp)
    · refine .expect <| .look (.atMark _) fun b => ?_
      split
      · exact .pure (by simp)
      · exact .bind hitem fun a => .bind ih fun ⟨rest, trailing⟩ => .pure (by simp)

lemma list_locates {item : Rule α} (close : Mark) (hitem : Locates text [] item) :
    Locates text known (list close item) := by
  refine .look (.atMark _) fun b => ?_
  split
  · exact .pure (by simp)
  · exact .bind hitem fun a => .look .bound fun _ =>
      .bind (listRest_locates close hitem _) fun ⟨rest, trailing⟩ => .pure (by simp)

end Rule

end SceneView.Script
