import SceneView.Proofs.Script.Steps
import SceneView.Proofs.Script.Reading

/-!
# Property chains and their tokens

Whether an expression is a plain property chain is asked of its tree. The tokens of its text tell
the same: they are `this` and, one after the other, a dot and a word. Every rule from the chains of
member accesses up to whole expressions keeps to this as long as it reads on from the chain that the
text begins with (`Rules.Follow`); a rule that reads something else makes a tree that is no chain,
and leaves tokens behind the chain.
-/

namespace SceneView.Script

open Rule Cursor

namespace Cursor

def tokensUpTo : Nat → Cursor → List Token
  | 0, _ => []
  | fuel + 1, c => if c.token.kind = .finish then [] else c.token :: c.next.tokensUpTo fuel

/-- The tokens from a cursor to the end of the text. Each takes a character at least. -/
def tokens (c : Cursor) : List Token :=
  c.tokensUpTo (c.rest.length + 1)

end Cursor

def tokensOf (text : List Char) : List Token :=
  (Cursor.ofText text).tokens

namespace Cursor

variable {c : Cursor}

lemma room_next_le (c : Cursor) : room c.next ≤ c.rest.length :=
  room_scan_le c.total c.rest

lemma tokensUpTo_eq {n m} (hn : room c ≤ n) (hm : room c ≤ m) :
    c.tokensUpTo n = c.tokensUpTo m := by
  induction n generalizing c m with
  | zero =>
    have hfinish : c.token.kind = .finish := by
      by_contra hne
      simp [room, hne] at hn
    cases m <;> simp [tokensUpTo, hfinish]
  | succ n ih =>
    by_cases hfinish : c.token.kind = .finish
    · cases m <;> simp [tokensUpTo, hfinish]
    · simp only [room, hfinish, if_false] at hn hm
      obtain ⟨m, rfl⟩ := Nat.exists_eq_add_one_of_ne_zero (show m ≠ 0 by omega)
      have hnext := room_next_le c
      simp [tokensUpTo, hfinish, ih (show room c.next ≤ n by omega)
        (show room c.next ≤ m by omega)]

lemma tokens_of_finish (h : c.token.kind = .finish) : c.tokens = [] := by
  simp [tokens, tokensUpTo, h]

lemma tokens_eq_cons (h : c.token.kind ≠ .finish) : c.tokens = c.token :: c.next.tokens := by
  have hnext := room_next_le c
  rw [tokens, tokensUpTo, if_neg h, tokens, tokensUpTo_eq hnext (room_le _)]

lemma tokens_eq_nil_iff : c.tokens = [] ↔ c.token.kind = .finish := by
  constructor
  · intro h
    by_contra hne
    rw [tokens_eq_cons hne] at h
    cases h
  · exact tokens_of_finish

def marked (c : Cursor) (flawed : Bool) : Cursor :=
  { c with flawed }

@[simp]
lemma token_marked (c : Cursor) (flawed : Bool) : (c.marked flawed).token = c.token := rfl

lemma next_marked (c : Cursor) (flawed : Bool) :
    ∃ flawed', (c.marked flawed).next = c.next.marked flawed' :=
  ⟨_, rfl⟩

@[simp]
lemma tokens_marked (c : Cursor) (flawed : Bool) : (c.marked flawed).tokens = c.tokens := by
  have h : ∀ n (c : Cursor) flawed, (c.marked flawed).tokensUpTo n = c.tokensUpTo n := by
    intro n
    induction n with
    | zero => exact fun _ _ => rfl
    | succ n ih =>
      intro c flawed
      obtain ⟨flawed', hnext⟩ := c.next_marked flawed
      simp only [tokensUpTo, token_marked, hnext, ih]
  exact h _ c flawed

@[simp]
lemma tokens_next_marked (c : Cursor) (flawed : Bool) :
    (c.marked flawed).next.tokens = c.next.tokens := by
  obtain ⟨flawed', hnext⟩ := c.next_marked flawed
  rw [hnext, tokens_marked]

end Cursor

/-- The words that the tokens begin with, each behind a dot, and the tokens that are left. -/
def dotted : List Token → List String × List Token
  | dot :: word :: rest =>
    if dot.kind = .mark .dot ∧ word.kind.isWord = true then
      (word.text :: (dotted rest).1, (dotted rest).2)
    else ([], dot :: word :: rest)
  | tokens => ([], tokens)

lemma dotted_step {dot word rest} (hdot : dot.kind = .mark .dot) (hword : word.kind.isWord = true) :
    dotted (dot :: word :: rest) = (word.text :: (dotted rest).1, (dotted rest).2) := by
  rw [dotted, if_pos ⟨hdot, hword⟩]

variable {c : Cursor} {names : List String}

lemma dotted_of_ne (h : c.token.kind ≠ .mark .dot) :
    dotted c.tokens = ([], c.tokens) := by
  by_cases hfinish : c.token.kind = .finish
  · rw [tokens_of_finish hfinish]
    rfl
  · rw [tokens_eq_cons hfinish]
    cases c.next.tokens with
    | nil => rfl
    | cons word rest => rw [dotted, if_neg fun hand => h hand.1]

lemma dotted_of_not_word (h : c.next.token.kind.isWord = false) :
    dotted c.tokens = ([], c.tokens) := by
  by_cases hfinish : c.token.kind = .finish
  · rw [tokens_of_finish hfinish]
    rfl
  · rw [tokens_eq_cons hfinish]
    by_cases hfinish' : c.next.token.kind = .finish
    · rw [tokens_of_finish hfinish']
      rfl
    · rw [tokens_eq_cons hfinish', dotted, if_neg]
      simp [h]

namespace Rule

variable {α β : Type}

/-- Every run of the rule from the cursor ends as told. -/
def Gives (x : Rule α) (c : Cursor) (P : α → Cursor → Prop) : Prop :=
  ∀ a c', x.run c = some (a, c') → P a c'

namespace Gives

variable {x : Rule α} {f : α → Rule β} {c : Cursor} {P Q : α → Cursor → Prop}
  {S : β → Cursor → Prop}

lemma pure {a} (h : P a c) : Gives (Pure.pure a : Rule α) c P := by
  intro b c' hrun
  cases hrun
  exact h

lemma fail : Gives (failure : Rule α) c P := by
  intro b c' hrun
  cases hrun

lemma fail_bind : Gives ((failure : Rule α) >>= f) c S := by
  intro b c' hrun
  cases hrun

lemma bind (h : Gives x c fun a c' => Gives (f a) c' S) : Gives (x >>= f) c S := by
  intro b c'' hrun
  obtain ⟨a, c', hx, hf⟩ := run_bind hrun
  exact h a c' hx b c'' hf

lemma skip (h : ∀ a c', Gives (f a) c' S) : Gives (x >>= f) c S :=
  bind fun a c' _ => h a c'

lemma look {a} (hx : x.run c = some (a, c)) (h : Gives (f a) c S) : Gives (x >>= f) c S := by
  intro b c' hrun
  rw [bind_run hx] at hrun
  exact h b c' hrun

lemma mono (h : Gives x c P) (hPQ : ∀ a c', P a c' → Q a c') : Gives x c Q :=
  fun a c' hrun => hPQ a c' (h a c' hrun)

end Gives

/-- How a step ends that may find nothing to do. -/
def Stepped (stop : Cursor → Prop) (go : α → Cursor → Prop) : Option α → Cursor → Prop
  | none, c => stop c
  | some a, c => go a c

variable {c : Cursor}

lemma iterate_gives {step : α → Rule (Option α)} {I P}
    (hstep : ∀ a c, I a c → Gives (step a) c (Stepped (P a) I)) {a} (h : I a c) :
    Gives (iterate step a) c P := by
  have hupTo : ∀ fuel a c, I a c → Gives (iterateUpTo step fuel a) c P := by
    intro fuel
    induction fuel with
    | zero => exact fun _ _ _ => .fail
    | succ fuel ih =>
      intro a c h
      refine .bind ((hstep a c h).mono fun next c' hnext => ?_)
      cases next with
      | none => exact .pure hnext
      | some a' => exact ih a' c' hnext
  exact .look bound_run (hupTo _ a c h)

lemma flawIf_gives (condition : Bool) (c : Cursor) :
    Gives (flawIf condition) c fun _ c' => ∃ flawed, c' = c.marked flawed := by
  cases condition with
  | false => exact .pure ⟨c.flawed, rfl⟩
  | true =>
    intro a c' hrun
    cases hrun
    exact ⟨true, rfl⟩

lemma advance_gives (c : Cursor) :
    Gives advance c fun _ c' => ∃ flawed, c' = c.next.marked flawed := by
  have hnext : ∀ flawed, Gives (modify next : Rule Unit) (c.marked flawed)
      fun _ c' => ∃ flawed, c' = c.next.marked flawed := by
    intro flawed a c' hrun
    cases hrun
    exact c.next_marked flawed
  refine .look token_run ?_
  split
  · refine .bind ((flawIf_gives _ c).mono fun _ c' hc' => ?_)
    obtain ⟨flawed, rfl⟩ := hc'
    exact hnext flawed
  · exact hnext c.flawed

lemma eat_gives (m : Mark) (c : Cursor) :
    Gives (eat m) c fun eaten c' => match eaten with
      | true => c.token.kind = .mark m
      | false => c.token.kind ≠ .mark m ∧ c' = c := by
  refine .look (atMark_run m) ?_
  split
  · next hmark => exact .skip fun _ _ => .pure (beq_iff_eq.1 hmark)
  · next hmark => exact .pure ⟨fun h => hmark (beq_iff_eq.2 h), rfl⟩

lemma attempt_gives (x : Rule α) (c : Cursor) :
    Gives (attempt x) c fun a c' => a = none → c' = c := by
  intro a c' hrun hnone
  simp only [attempt, StateT.run] at hrun
  split at hrun
  · cases hrun
    cases hnone
  · cases hrun
    rfl

/-- The names of a chain that is plain so far: from `this`, and nothing optional. -/
def Chain.names? (chain : Chain) : Option (List String) :=
  if chain.optional then none else chain.tree.chain?

lemma Chain.names?_node (form : Form) (parts : List Tree) (optional : Bool) :
    Chain.names? ⟨.node form parts, optional⟩ = none := by
  cases optional <;> rfl

lemma Chain.names?_member (object : Tree) (optional : Bool) (property : String) :
    Chain.names? ⟨.member object property, optional⟩ =
      (Chain.names? ⟨object, optional⟩).map (· ++ [property]) := by
  cases optional <;> rfl

lemma memberName_gives (object : Tree) (c : Cursor) :
    Gives (memberName object) c fun tree c' =>
      c.token.kind.isWord = false ∧ tree = .node .privateMember [object] ∨
      c.token.kind.isWord = true ∧ tree = .member object c.token.text ∧
        c'.tokens = c.next.tokens := by
  refine .bind ((flawIf_gives _ c).mono fun _ c' hc' => ?_)
  obtain ⟨flawed, rfl⟩ := hc'
  refine .look kind_run ?_
  split
  · next hprivate =>
    refine .skip fun _ _ => .pure (.inl ⟨?_, rfl⟩)
    rw [beq_iff_eq] at hprivate
    exact congrArg Kind.isWord hprivate
  · refine .bind (.look token_run ?_)
    split
    · next hword =>
      intro a c' hrun
      cases hrun
      exact .pure (.inr ⟨hword, rfl, tokens_next_marked c flawed⟩)
    · exact .fail

variable {R : Rules} {ctx : Context}

lemma memberIndex_gives (object : Tree) (c : Cursor) :
    Gives (memberIndex R ctx object) c fun tree _ => ∃ parts, tree = .node .index parts :=
  .skip fun _ _ => .skip fun _ _ => .skip fun _ _ => .pure ⟨_, rfl⟩

/-- One step of a chain reads a dot and a word, or something else and makes the chain no longer
plain. The chain stops where no dot and word stand. -/
def Chain.StepsTo (chain : Chain) (c : Cursor) : Option Chain → Cursor → Prop :=
  Stepped (fun c' => c' = c ∧ dotted c.tokens = ([], c.tokens)) fun chain' c' =>
    (∃ dot word, c.tokens = dot :: word :: c'.tokens ∧ dot.kind = .mark .dot ∧
      word.kind.isWord = true ∧ chain'.names? = chain.names?.map (· ++ [word.text])) ∨
    chain'.names? = none ∧ dotted c.tokens = ([], c.tokens) ∧ c.tokens ≠ []

lemma memberStep_gives (allowsOptional : Bool) (chain : Chain) (c : Cursor) :
    Gives (memberStep R ctx allowsOptional chain) c (chain.StepsTo c) := by
  refine .look kind_run ?_
  have other {k : Kind} (hkind : c.token.kind = k) (hdot : k ≠ .mark .dot) (hfinish : k ≠ .finish) :
      dotted c.tokens = ([], c.tokens) ∧ c.tokens ≠ [] :=
    ⟨dotted_of_ne (hkind ▸ hdot), fun h => hfinish (hkind ▸ tokens_eq_nil_iff.1 h)⟩
  have typed (hother : dotted c.tokens = ([], c.tokens) ∧ c.tokens ≠ [])
      {f : Option (List Tree) → Rule (Option Chain)} (hnone : f none = pure none)
      (hsome : ∀ types, f (some types) =
        pure (some { chain with tree := .node .instantiation (chain.tree :: types) })) :
      Gives (attempt (callTypeArguments R ctx) >>= f) c (chain.StepsTo c) := by
    refine .bind ((attempt_gives _ c).mono fun types c' htypes => ?_)
    cases types with
    | none =>
      rw [hnone]
      exact .pure ⟨htypes rfl, hother.1⟩
    | some types =>
      rw [hsome]
      exact .pure (.inr ⟨Chain.names?_node _ _ _, hother⟩)
  split
  · next hdot =>
    have hfinish : c.token.kind ≠ .finish := by rw [hdot]; nofun
    refine .bind ((advance_gives c).mono fun _ c₁ hc₁ => ?_)
    obtain ⟨flawed, rfl⟩ := hc₁
    refine .bind ((memberName_gives chain.tree _).mono fun tree c₂ htree => ?_)
    obtain ⟨hword, rfl⟩ | ⟨hword, rfl, htokens⟩ := htree
    · exact .pure (.inr ⟨Chain.names?_node _ _ _, dotted_of_not_word hword,
        fun h => hfinish (tokens_eq_nil_iff.1 h)⟩)
    · refine .pure (.inl ⟨c.token, c.next.token, ?_, hdot, hword, Chain.names?_member _ _ _⟩)
      have hfinish' : c.next.token.kind ≠ .finish := by
        intro h
        rw [token_marked, h] at hword
        cases hword
      rw [htokens, tokens_next_marked, tokens_eq_cons hfinish,
        tokens_eq_cons hfinish']
  · next hkind =>
    have hother := other hkind nofun nofun
    split
    · exact .fail_bind
    · refine .look rfl ?_
      dsimp only
      split
      · refine .skip fun _ _ => .bind ((memberIndex_gives _ _).mono fun tree c' _ => ?_)
        exact .pure (.inr ⟨rfl, hother⟩)
      · split
        · exact .skip fun _ _ => .skip fun _ _ => .pure (.inr ⟨rfl, hother⟩)
        · exact .pure ⟨rfl, hother.1⟩
  · next hkind =>
    have hother := other hkind nofun nofun
    split
    · exact .pure ⟨rfl, hother.1⟩
    · refine .bind ((memberIndex_gives _ _).mono fun tree c' htree => ?_)
      obtain ⟨parts, rfl⟩ := htree
      exact .pure (.inr ⟨Chain.names?_node _ _ _, hother⟩)
  · next hkind =>
    have hother := other hkind nofun nofun
    refine .look onNewLine_run ?_
    split
    · exact .pure ⟨rfl, hother.1⟩
    · exact .skip fun _ _ => .pure (.inr ⟨Chain.names?_node _ _ _, hother⟩)
  iterate 2
    next hkind =>
    exact .skip fun _ _ => .skip fun _ _ =>
      .pure (.inr ⟨Chain.names?_node _ _ _, other hkind nofun nofun⟩)
  iterate 2 next hkind => exact typed (other hkind nofun nofun) rfl fun _ => rfl
  · next hdot _ _ _ _ _ _ _ => exact .pure ⟨rfl, dotted_of_ne hdot⟩

lemma memberRest_gives_none {allowsOptional : Bool} {chain} (h : chain.names? = none) :
    Gives (memberRest R ctx allowsOptional chain) c fun chain' _ => chain'.names? = none := by
  refine iterate_gives (I := fun chain _ => chain.names? = none) (fun chain c h => ?_) h
  refine (memberStep_gives _ chain c).mono fun next c' hnext => ?_
  cases next with
  | none => exact h
  | some chain' =>
    obtain ⟨dot, word, -, -, -, hnames⟩ | ⟨hnames, -, -⟩ := hnext
    · exact hnames.trans (by rw [h]; rfl)
    · exact hnames

lemma memberRest_gives {allowsOptional : Bool} {chain names} (h : chain.names? = some names) :
    Gives (memberRest R ctx allowsOptional chain) c fun chain' c' =>
      chain'.names? = some (names ++ (dotted c.tokens).1) ∧ c'.tokens = (dotted c.tokens).2 ∨
      chain'.names? = none ∧ (dotted c.tokens).2 ≠ [] := by
  refine iterate_gives (I := fun chain₁ c₁ => (∃ names₁, chain₁.names? = some names₁ ∧
      names₁ ++ (dotted c₁.tokens).1 = names ++ (dotted c.tokens).1 ∧
      (dotted c₁.tokens).2 = (dotted c.tokens).2) ∨
    chain₁.names? = none ∧ (dotted c.tokens).2 ≠ [])
    (fun chain₁ c₁ h₁ => ?_) (.inl ⟨names, h, rfl, rfl⟩)
  refine (memberStep_gives _ chain₁ c₁).mono fun next c₂ hnext => ?_
  obtain ⟨names₁, hnames₁, hall, hleft⟩ | ⟨hnone, hleft⟩ := h₁
  · cases next with
    | none =>
      obtain ⟨rfl, hstop⟩ := hnext
      rw [hstop] at hall hleft
      rw [List.append_nil] at hall
      exact .inl ⟨hall ▸ hnames₁, hleft⟩
    | some chain₂ =>
      obtain ⟨dot, word, htokens, hdot, hword, hnames₂⟩ | ⟨hnames₂, hstop, hne⟩ := hnext
      · rw [htokens, dotted_step hdot hword] at hall hleft
        refine .inl ⟨names₁ ++ [word.text], ?_, ?_, hleft⟩
        · rw [hnames₂, hnames₁]
          rfl
        · rw [List.append_assoc]
          exact hall
      · rw [hstop] at hleft
        exact .inr ⟨hnames₂, hleft ▸ hne⟩
  · cases next with
    | none => exact .inr ⟨hnone, hleft⟩
    | some chain₂ =>
      obtain ⟨dot, word, -, -, -, hnames₂⟩ | ⟨hnames₂, -, -⟩ := hnext
      · refine .inr ⟨?_, hleft⟩
        rw [hnames₂, hnone]
        rfl
      · exact .inr ⟨hnames₂, hleft⟩

lemma callStep_gives (chain : Chain) (c : Cursor) :
    Gives (callStep R ctx chain) c
      (Stepped (· = c) fun chain' _ => chain'.names? = none ∧ c.token.kind ≠ .finish) := by
  have hrest : ∀ form parts optional c₁, c.token.kind ≠ .finish →
      Gives (do return some (← memberRest R ctx true ⟨.node form parts, optional⟩)) c₁
        (Stepped (· = c) fun chain' _ => chain'.names? = none ∧ c.token.kind ≠ .finish) :=
    fun form parts optional c₁ hfinish => .bind
      ((memberRest_gives_none (Chain.names?_node form parts optional)).mono
        fun chain' _ hnames => .pure ⟨hnames, hfinish⟩)
  refine .bind ((eat_gives .questionDot c).mono fun eaten c₁ heaten => ?_)
  cases eaten with
  | true =>
    have hfinish : c.token.kind ≠ .finish := by
      rw [show c.token.kind = _ from heaten]
      nofun
    refine .skip fun k c₂ => ?_
    extract_lets jp
    have hjp : ∀ types c₃, Gives (jp types) c₃
        (Stepped (· = c) fun chain' _ => chain'.names? = none ∧ c.token.kind ≠ .finish) := by
      refine fun types c₃ => .look kind_run ?_
      split
      · exact .skip fun _ _ => .skip fun _ _ => hrest _ _ _ _ hfinish
      · exact .skip fun _ _ => hrest _ _ _ _ hfinish
    split
    iterate 2 exact .skip fun _ _ => hjp _ _
    · exact hjp _ _
  | false =>
    obtain ⟨-, rfl⟩ := heaten
    refine .look (atMark_run _) ?_
    split
    · next hparen =>
      have hfinish : c₁.token.kind ≠ .finish := by
        rw [beq_iff_eq.1 hparen]
        nofun
      exact .skip fun _ _ => hrest _ _ _ _ hfinish
    · exact .pure rfl

lemma callRest_gives (tree : Tree) (c : Cursor) :
    Gives (callRest R ctx tree) c fun tree' c' => (tree.chain? = none → tree'.chain? = none) ∧
      ∀ names, tree.chain? = some names →
        tree'.chain? = some (names ++ (dotted c.tokens).1) ∧
          (c'.token.kind = .finish ↔ (dotted c.tokens).2 = []) ∨
        tree'.chain? = none ∧ (dotted c.tokens).2 ≠ [] := by
  have hcalls : ∀ (chain : Chain) (c₁ : Cursor), Gives (iterate (callStep R ctx) chain) c₁
      fun chain' c' => chain' = chain ∧ c' = c₁ ∨
        chain'.names? = none ∧ c₁.token.kind ≠ .finish := by
    intro chain c₁
    refine iterate_gives (I := fun chain' c' => chain' = chain ∧ c' = c₁ ∨
      chain'.names? = none ∧ c₁.token.kind ≠ .finish) (fun chain₂ c₂ h₂ => ?_) (.inl ⟨rfl, rfl⟩)
    refine (callStep_gives chain₂ c₂).mono fun next c₃ hnext => ?_
    cases next with
    | none =>
      obtain rfl : c₃ = c₂ := hnext
      exact h₂
    | some chain₃ =>
      obtain ⟨rfl, rfl⟩ | ⟨-, hfinish⟩ := h₂
      · exact .inr hnext
      · exact .inr ⟨hnext.1, hfinish⟩
  have hchain : ∀ chain : Chain, (if chain.optional then Tree.node .optionalChain [chain.tree]
      else chain.tree).chain? = chain.names? := by
    rintro ⟨tree, _ | _⟩ <;> rfl
  have hplain : tree.chain? = Chain.names? ⟨tree, false⟩ := rfl
  rw [hplain]
  cases hnames : Chain.names? ⟨tree, false⟩ with
  | none =>
    refine .bind ((memberRest_gives_none hnames).mono fun chain c₁ hchain₁ => ?_)
    refine .bind ((hcalls chain c₁).mono fun chain' c' hchain' => ?_)
    refine .pure ⟨fun _ => ?_, nofun⟩
    rw [hchain]
    obtain ⟨rfl, -⟩ | ⟨hnone, -⟩ := hchain'
    · exact hchain₁
    · exact hnone
  | some names =>
    refine .bind ((memberRest_gives hnames).mono fun chain c₁ hchain₁ => ?_)
    refine .bind ((hcalls chain c₁).mono fun chain' c' hchain' => ?_)
    refine .pure ⟨nofun, fun names' h => ?_⟩
    cases h
    rw [hchain, ← tokens_eq_nil_iff]
    obtain ⟨hnames₁, htokens⟩ | ⟨hnone, hleft⟩ := hchain₁
    · obtain ⟨rfl, rfl⟩ | ⟨hnone, hfinish⟩ := hchain'
      · exact .inl ⟨hnames₁, by rw [htokens]⟩
      · rw [Ne, ← tokens_eq_nil_iff, htokens] at hfinish
        exact .inr ⟨hnone, hfinish⟩
    · obtain ⟨rfl, rfl⟩ | ⟨hnone', -⟩ := hchain'
      · exact .inr ⟨hnone, hleft⟩
      · exact .inr ⟨hnone', hleft⟩

/-- The rule makes no chain. -/
def Unchained (x : Rule Tree) : Prop :=
  ∀ c, Gives x c fun tree _ => tree.chain? = none

namespace Unchained

lemma node (form : Form) (parts : List Tree) : Unchained (Pure.pure (.node form parts)) :=
  fun _ => .pure rfl

lemma name (text : String) : Unchained (Pure.pure (.name text)) :=
  fun _ => .pure rfl

lemma fail : Unchained failure :=
  fun _ => .fail

lemma fail_bind {f} : Unchained ((failure : Rule α) >>= f) :=
  fun _ => .fail_bind

lemma skip {x : Rule α} {f} (h : ∀ a, Unchained (f a)) : Unchained (x >>= f) :=
  fun _ => .skip fun a c' => h a c'

end Unchained

lemma patternLiteral_unchained : Unchained patternLiteral := by
  refine .skip fun _ => .skip fun k => ?_
  dsimp only
  split
  · exact .skip fun _ => .node _ _
  · exact .skip fun _ => .skip fun _ => .node _ _

lemma parenthesized_unchained : Unchained (parenthesized R ctx) := by
  refine .skip fun _ => .skip fun ⟨items, trailing⟩ => ?_
  dsimp only
  split
  · exact .fail_bind
  · refine .skip fun _ => ?_
    split
    · exact .fail
    · exact .node _ _
    · exact .node _ _

lemma classFrom_unchained (decorators : List Tree) (named : Bool) :
    Unchained (classFrom R ctx decorators named) := by
  refine .skip fun _ => .skip fun k => ?_
  extract_lets jp
  have hjp : ∀ u, Unchained (jp u) := fun _ =>
    .skip fun _ => .skip fun _ => .skip fun _ => .skip fun _ => .skip fun _ => .node _ _
  split
  · exact .skip fun _ => hjp ()
  · split
    · exact .fail_bind
    · exact hjp ()

lemma functionFrom_unchained (async declaration : Bool) :
    Unchained (functionFrom R ctx async declaration) := by
  have hrest : ∀ generator constructor c, Gives (functionRest R ctx async generator constructor) c
      fun rest _ => rest.tree.chain? = none := by
    intro generator constructor c
    refine .skip fun _ _ => .skip fun ⟨receiver, parameters⟩ _ => ?_
    refine .skip fun _ _ => .skip fun b _ => ?_
    dsimp only
    split
    · exact .skip fun _ _ => .pure rfl
    · exact .pure rfl
  refine .skip fun _ => .skip fun generator => .skip fun k => ?_
  extract_lets jp
  have hjp : ∀ u, Unchained (jp u) := by
    refine fun _ c => .bind ((hrest _ _ c).mono fun rest c' htree => ?_)
    dsimp only
    split
    · exact .pure htree
    · split
      · exact .skip fun _ _ => .pure htree
      · exact .fail_bind
  split
  · exact .skip fun _ => hjp ()
  · split
    · exact .fail_bind
    · exact hjp ()

lemma construction_unchained : Unchained (construction R ctx) := by
  refine .skip fun _ => .skip fun b => ?_
  split
  · exact .skip fun _ => .node _ _
  refine .skip fun start => .skip fun callee => .skip fun b => ?_
  dsimp only
  split
  · exact .fail_bind
  refine .skip fun _ => .skip fun b => ?_
  split
  · exact .skip fun _ => .node _ _
  · exact .node _ _

lemma importExpression_unchained : Unchained (importExpression R ctx) := by
  refine .skip fun _ => .skip fun b => ?_
  extract_lets jp
  have hjp : ∀ u, Unchained (jp u) := by
    refine fun _ => .skip fun _ => ?_
    split
    · exact .fail
    · exact .node _ _
    · exact .fail
    · exact .node _ _
    · exact .fail
  split
  · refine .skip fun b => ?_
    split
    · exact .node _ _
    refine .skip fun b => .skip fun b' => ?_
    split
    · refine .skip fun _ => .skip fun b => ?_
      split
      · exact hjp ()
      · exact .fail_bind
    · exact .fail_bind
  · exact hjp ()

/-- Only the word `this` begins a chain. -/
def Begins (c : Cursor) (tree : Tree) (c' : Cursor) : Prop :=
  c.token.kind = .keyword .thisKw ∧ tree.chain? = some [] ∧ c'.tokens = c.next.tokens ∨
  c.token.kind ≠ .keyword .thisKw ∧ tree.chain? = none

lemma primary_gives (c : Cursor) : Gives (primary R ctx) c (Begins c) := by
  have other {k : Kind} {x : Rule Tree} (hkind : c.token.kind = k) (hthis : k ≠ .keyword .thisKw)
      (hx : Unchained x) : Gives x c (Begins c) :=
    (hx c).mono fun _ _ htree => .inr ⟨hkind ▸ hthis, htree⟩
  refine .look token_run ?_
  split
  all_goals try next hkind => exact other hkind nofun (.skip fun _ => .node _ _)
  · next hkind => exact other hkind nofun (.skip fun _ => .name _)
  iterate 2 next hkind => exact other hkind nofun patternLiteral_unchained
  iterate 2
    next hkind =>
    exact other hkind nofun (.skip fun _ => .skip fun ⟨_, _⟩ => .skip fun _ => .node _ _)
  · next hkind => exact other hkind nofun parenthesized_unchained
  · next hkind =>
    refine .bind ((advance_gives c).mono fun _ c' hc' => ?_)
    obtain ⟨flawed, rfl⟩ := hc'
    exact .pure (.inl ⟨hkind, rfl, tokens_marked _ _⟩)
  · next hkind =>
    exact other hkind nofun (.skip fun _ => .skip fun _ => .skip fun _ => .node _ _)
  · next hkind => exact other hkind nofun (classFrom_unchained _ _)
  · next hkind => exact other hkind nofun (.skip fun _ => classFrom_unchained _ _)
  · next hkind => exact other hkind nofun construction_unchained
  · next hkind => exact other hkind nofun importExpression_unchained
  · next hkind => exact other hkind nofun (functionFrom_unchained _ _)
  · have hthis : c.token.kind ≠ .keyword .thisKw := by assumption
    refine other rfl hthis (.skip fun b => ?_)
    split
    · exact .skip fun _ => functionFrom_unchained _ _
    · exact .skip fun _ => .name _

/-- The chain that tokens begin with, by its names, and the tokens behind it. -/
def lead? : List Token → Option (List String × List Token)
  | first :: rest => if first.kind = .keyword .thisKw then some (dotted rest) else none
  | [] => none

/-- What is read of the tokens is the chain that they begin with, and it is known whether that are
all of them, or it is no chain, and they are no chain. -/
def Follows (tokens : List Token) (tree : Tree) (c : Cursor) : Prop :=
  (∃ names left, lead? tokens = some (names, left) ∧ tree.chain? = some names ∧
    (c.token.kind = .finish ↔ left = [])) ∨
  tree.chain? = none ∧ ∀ names, lead? tokens ≠ some (names, [])

namespace Follows

variable {tokens : List Token} {tree : Tree} {c c' : Cursor}

lemma node (h : Follows tokens tree c) (hfinish : c.token.kind ≠ .finish) (form : Form)
    (parts : List Tree) : Follows tokens (.node form parts) c' := by
  refine .inr ⟨rfl, fun names hlead => ?_⟩
  obtain ⟨names', left, hlead', -, hleft⟩ | ⟨-, hnone⟩ := h
  · rw [hlead'] at hlead
    cases hlead
    exact hfinish (hleft.2 rfl)
  · exact hnone names hlead

lemma move (h : Follows tokens tree c)
    (hfinish : c'.token.kind = .finish ↔ c.token.kind = .finish) : Follows tokens tree c' := by
  obtain ⟨names, left, hlead, htree, hleft⟩ | h := h
  · exact .inl ⟨names, left, hlead, htree, hfinish.trans hleft⟩
  · exact .inr h

end Follows

lemma lead?_of_ne (h : c.token.kind ≠ .keyword .thisKw) : lead? c.tokens = none := by
  by_cases hfinish : c.token.kind = .finish
  · rw [tokens_of_finish hfinish]
    rfl
  · rw [tokens_eq_cons hfinish, lead?, if_neg h]

lemma Unchained.follows {x} (hx : Unchained x) {k} (hkind : c.token.kind = k)
    (hthis : k ≠ .keyword .thisKw) : Gives x c (Follows c.tokens) := by
  refine (hx c).mono fun tree c' htree => .inr ⟨htree, fun names hlead => ?_⟩
  rw [lead?_of_ne (hkind ▸ hthis)] at hlead
  cases hlead

end Rule

/-- The rules that a chain goes through follow the tokens. -/
structure Rules.Follow (R : Rules) : Prop where
  primary : ∀ ctx c, Rule.Gives (R.primary ctx) c (Rule.Begins c)
  leftHand : ∀ ctx c, Rule.Gives (R.leftHand ctx) c (Rule.Follows c.tokens)
  unary : ∀ ctx c, Rule.Gives (R.unary ctx) c (Rule.Follows c.tokens)
  binary : ∀ ctx floor c, Rule.Gives (R.binary ctx floor) c (Rule.Follows c.tokens)
  assignment : ∀ ctx returnType c,
    Rule.Gives (R.assignment ctx returnType) c (Rule.Follows c.tokens)

namespace Rule

variable {R : Rules}

lemma leftHand_follows (h : R.Follow) (ctx : Context) (c : Cursor) :
    Gives (leftHand R ctx) c (Follows c.tokens) := by
  refine .bind ((h.primary ctx c).mono fun tree c₁ htree => ?_)
  refine (callRest_gives tree c₁).mono fun tree' c' hrest => ?_
  obtain ⟨hthis, hchain, htokens⟩ | ⟨hthis, hchain⟩ := htree
  · have hfinish : c.token.kind ≠ .finish := by
      rw [hthis]
      nofun
    have hlead : lead? c.tokens = some (dotted c₁.tokens) := by
      rw [tokens_eq_cons hfinish, lead?, if_pos hthis, htokens]
    obtain ⟨hnames, hleft⟩ | ⟨hnone, hleft⟩ := hrest.2 [] hchain
    · exact .inl ⟨_, _, hlead, hnames, hleft⟩
    · refine .inr ⟨hnone, fun names hall => hleft ?_⟩
      rw [hlead, Option.some.injEq] at hall
      rw [hall]
  · refine .inr ⟨hrest.1 hchain, fun names hall => ?_⟩
    rw [lead?_of_ne hthis] at hall
    cases hall

lemma update_follows (h : R.Follow) (ctx : Context) (c : Cursor) :
    Gives (update R ctx) c (Follows c.tokens) := by
  have hbefore : Unchained (do
      advance
      let operand ← R.unary ctx
      unless operand.isSimpleTarget do failure
      return Tree.node .update [operand]) := by
    refine .skip fun _ => .skip fun operand => ?_
    split
    · exact .node _ _
    · exact .fail_bind
  have hafter : ∀ operand c₁, Follows c.tokens operand c₁ → c₁.token.kind ≠ .finish → Gives (do
      if ← onNewLine then return operand
      unless operand.isSimpleTarget do failure
      advance
      return Tree.node .update [operand]) c₁ (Follows c.tokens) := by
    refine fun operand c₁ hoperand hfinish => .look onNewLine_run ?_
    split
    · exact .pure hoperand
    split
    · exact .skip fun _ _ => .pure (hoperand.node hfinish _ _)
    · exact .fail_bind
  refine .look kind_run ?_
  split
  iterate 2 next hkind => exact hbefore.follows hkind nofun
  · refine .bind ((h.leftHand ctx c).mono fun operand c₁ hoperand => .look kind_run ?_)
    split
    iterate 2 next hkind => exact hafter operand c₁ hoperand (by rw [hkind]; nofun)
    · exact .pure hoperand

lemma unary_follows (h : R.Follow) (ctx : Context) (c : Cursor) :
    Gives (unary R ctx) c (Follows c.tokens) := by
  have hbefore : Unchained (do advance; return Tree.node .unary [← R.unary ctx]) :=
    .skip fun _ => .skip fun _ => .node _ _
  refine .look kind_run ?_
  split
  case h_8 hkind =>
    refine Unchained.follows ?_ hkind nofun
    exact .skip fun _ => .skip fun _ => .skip fun _ => .skip fun _ => .node _ _
  case h_9 hkind =>
    refine .look (nextIs_run _) ?_
    split
    · refine Unchained.follows ?_ hkind nofun
      exact .skip fun _ => .skip fun _ => .skip fun _ => .node _ _
    · exact update_follows h ctx c
  case h_10 => exact update_follows h ctx c
  all_goals
    next hkind => exact hbefore.follows hkind nofun

lemma joinGreater_gives (c : Cursor) :
    Gives joinGreater c fun _ c' => c'.token.kind = .finish ↔ c.token.kind = .finish := by
  refine .look (atMark_run _) ?_
  split
  · next hgreater =>
    intro a c' hrun
    cases hrun
    rw [beq_iff_eq.1 hgreater]
    exact ⟨nofun, nofun⟩
  · exact .pure .rfl

lemma binaryStep_follows {tokens left c} (ctx : Context) (floor : Nat) (h : Follows tokens left c) :
    Gives (binaryStep R ctx floor left) c (Stepped (Follows tokens left) (Follows tokens)) := by
  refine .bind ((joinGreater_gives c).mono fun _ c₁ hc₁ => .look kind_run ?_)
  have h₁ := h.move hc₁
  split
  · exact .pure h₁
  · next hlevel =>
    have hfinish : c₁.token.kind ≠ .finish := by
      intro hkind
      rw [hkind] at hlevel
      cases hlevel
    split
    · exact .pure h₁
    split
    · exact .pure h₁
    split
    · refine .look onNewLine_run ?_
      split
      · exact .pure h₁
      · exact .skip fun _ _ => .skip fun _ _ => .pure (h₁.node hfinish _ _)
    refine .skip fun _ _ => .skip fun right _ => ?_
    split
    · exact .skip fun _ _ => .pure (h₁.node hfinish _ _)
    iterate 2 exact .pure (h₁.node hfinish _ _)
    · exact .skip fun _ _ => .pure (h₁.node hfinish _ _)
    · exact .pure (h₁.node hfinish _ _)

lemma binary_follows (h : R.Follow) (ctx : Context) (floor : Nat) (c : Cursor) :
    Gives (binary R ctx floor) c (Follows c.tokens) := by
  refine .look kind_run ?_
  extract_lets jp
  have hjp : ∀ first c₁, Follows c.tokens first c₁ → Gives (jp first) c₁ (Follows c.tokens) :=
    fun first c₁ hfirst => iterate_gives (I := Follows c.tokens)
      (fun left c₂ hleft => binaryStep_follows ctx floor hleft) hfirst
  split
  · next hkind =>
    have hthis : c.token.kind ≠ .keyword .thisKw := by
      intro hkw
      rw [hkw] at hkind
      simp at hkind
    refine .skip fun _ _ => .skip fun _ _ => .skip fun object c₁ => ?_
    split
    · exact .fail_bind
    · refine hjp _ _ (.inr ⟨rfl, fun names hall => ?_⟩)
      rw [lead?_of_ne hthis] at hall
      cases hall
  · exact .bind ((h.unary ctx c).mono fun first c₁ hfirst => hjp first c₁ hfirst)

lemma arrowBody_gives (ctx : Context) (head : ArrowHead) (returnType : Bool) (c : Cursor) :
    Gives (arrowBody R ctx head returnType) c fun tree _ => ∃ parts, tree = .node .arrow parts := by
  refine .look (atMark_run _) ?_
  split
  iterate 2 exact .skip fun _ _ => .pure ⟨_, rfl⟩

lemma parenthesizedArrow?_gives (ctx : Context) (returnType : Bool) (c : Cursor) :
    Gives (parenthesizedArrow? R ctx returnType) c
      (Stepped (· = c) fun tree _ => tree.chain? = none) := by
  have hbody : ∀ head c₁, Gives (do
      let arrow ← arrowBody R ctx head true
      return some arrow) c₁ (Stepped (· = c) fun tree _ => tree.chain? = none) := by
    refine fun head c₁ => .bind ((arrowBody_gives ctx head true c₁).mono fun tree c₂ htree => ?_)
    obtain ⟨parts, rfl⟩ := htree
    exact .pure rfl
  refine .look (lookahead_run _ _) ?_
  split
  · exact .pure rfl
  · exact .skip fun head c₁ => hbody head c₁
  · refine .look rfl (.bind ((attempt_gives _ c).mono fun head c₁ hhead => ?_))
    cases head with
    | none => exact .pure (hhead rfl)
    | some head =>
      refine .bind ((arrowBody_gives ctx head returnType c₁).mono fun tree c₂ htree => ?_)
      obtain ⟨parts, rfl⟩ := htree
      refine .look (atMark_run _) ?_
      split
      · intro a c' hrun
        cases hrun
        rfl
      · exact .pure rfl

lemma asyncArrow?_gives (ctx : Context) (returnType : Bool) (c : Cursor) :
    Gives (asyncArrow? R ctx returnType) c
      (Stepped (· = c) fun tree _ => tree.chain? = none) := by
  refine .look (lookahead_run _ _) ?_
  split
  · exact .pure rfl
  · refine .skip fun _ _ => .skip fun _ _ => .skip fun _ c₁ =>
      .bind ((arrowBody_gives ctx _ returnType c₁).mono fun tree c₂ htree => ?_)
    obtain ⟨parts, rfl⟩ := htree
    exact .pure rfl

lemma yieldExpression_unchained (ctx : Context) : Unchained (yieldExpression R ctx) := by
  refine .skip fun _ => .skip fun _ => .skip fun b => ?_
  split
  · exact .node _ _
  refine .skip fun delegates => .skip fun k => ?_
  extract_lets ends
  split
  · exact .node _ _
  · exact .skip fun _ => .node _ _

lemma afterLeft_follows {tokens left c} (ctx : Context) (returnType : Bool)
    (h : Follows tokens left c) : Gives (afterLeft R ctx returnType left) c (Follows tokens) := by
  refine .look kind_run ?_
  split
  · next hkind =>
    refine .skip fun _ _ => (arrowBody_gives ctx _ returnType _).mono fun tree c' htree => ?_
    obtain ⟨parts, rfl⟩ := htree
    exact h.node (by rw [hkind]; nofun) _ _
  · next hkind =>
    have hfinish : c.token.kind ≠ .finish := by
      rw [hkind]
      nofun
    split
    · split
      · exact .skip fun _ _ => .skip fun _ _ => .pure (h.node hfinish _ _)
      · exact .fail
    split
    · dsimp only
      split
      · exact .skip fun _ _ => .skip fun _ _ => .pure (h.node hfinish _ _)
      · exact .fail_bind
    split
    · exact .skip fun _ _ => .skip fun _ _ => .skip fun _ _ => .skip fun _ _ =>
        .pure (h.node hfinish _ _)
    · exact .pure h
  · exact .pure h

lemma assignment_follows (h : R.Follow) (ctx : Context) (returnType : Bool) (c : Cursor) :
    Gives (assignment R ctx returnType) c (Follows c.tokens) := by
  have hoperation : Gives (R.binary ctx 0 >>= afterLeft R ctx returnType) c (Follows c.tokens) :=
    .bind ((h.binary ctx 0 c).mono fun left c₁ hleft => afterLeft_follows ctx returnType hleft)
  by_cases hthis : c.token.kind = .keyword .thisKw
  · have hguess : arrowGuess.run c = some (.no, c) := by
      simp [arrowGuess, hthis]
    intro tree c' hrun
    rw [assignment_eq (by simp [hthis]) hguess] at hrun
    exact hoperation tree c' hrun
  · have other {tree : Tree} {c' : Cursor} (htree : tree.chain? = none) :
        Follows c.tokens tree c' :=
      .inr ⟨htree, fun names hall => by rw [lead?_of_ne hthis] at hall; cases hall⟩
    obtain ⟨yields, hyields⟩ := startsYield_looks ctx c
    refine .look hyields ?_
    split
    · exact (yieldExpression_unchained ctx c).mono fun _ _ htree => other htree
    refine .bind ((parenthesizedArrow?_gives ctx returnType c).mono fun arrow c₁ harrow => ?_)
    cases arrow with
    | some arrow => exact .pure (other harrow)
    | none =>
      obtain rfl : c₁ = c := harrow
      refine .bind ((asyncArrow?_gives ctx returnType c₁).mono fun arrow c₂ harrow => ?_)
      cases arrow with
      | some arrow => exact .pure (other harrow)
      | none =>
        obtain rfl : c₂ = c₁ := harrow
        exact hoperation

lemma expression_follows (h : R.Follow) (ctx : Context) (c : Cursor) :
    Gives (expression R ctx) c (Follows c.tokens) := by
  refine .bind ((h.assignment _ _ c).mono fun first c₁ hfirst => ?_)
  refine .bind (.look bound_run (.bind (.bind ?_)))
  refine (eat_gives .comma c₁).mono fun eaten c₂ heaten => ?_
  cases eaten with
  | true =>
    have hfinish : c₁.token.kind ≠ .finish := by
      rw [show c₁.token.kind = _ from heaten]
      nofun
    exact .skip fun _ _ => .pure (.skip fun _ _ => .pure (.pure (hfirst.node hfinish _ _)))
  | false =>
    obtain ⟨-, rfl⟩ := heaten
    exact .pure (.pure (.pure hfirst))

end Rule

lemma Rules.upTo_follow (depth : Nat) : (Rules.upTo depth).Follow := by
  induction depth with
  | zero =>
    exact ⟨fun _ _ => .fail, fun _ _ => .fail, fun _ _ => .fail, fun _ _ _ => .fail,
      fun _ _ _ => .fail⟩
  | succ depth ih =>
    exact ⟨fun _ => primary_gives, leftHand_follows ih, unary_follows ih,
      binary_follows ih, assignment_follows ih⟩

/-- Tokens that are names, each behind a dot. -/
inductive DottedNames : List Token → List String → Prop where
  | nil : DottedNames [] []
  | step {dot word : Token} {rest : List Token} {names : List String} :
    dot.kind = .mark .dot → word.kind.isWord = true → DottedNames rest names →
    DottedNames (dot :: word :: rest) (word.text :: names)

/-- The tokens are `this` and the given names, at least one, each behind a dot. -/
def IsPath (tokens : List Token) (names : List String) : Prop :=
  ∃ first rest, tokens = first :: rest ∧ first.kind = .keyword .thisKw ∧
    DottedNames rest names ∧ names ≠ []

lemma dotted_eq_iff {tokens} : dotted tokens = (names, []) ↔ DottedNames tokens names := by
  constructor
  · intro h
    induction tokens using dotted.induct generalizing names with
    | case1 dot word rest hstep ih =>
      rw [dotted_step hstep.1 hstep.2] at h
      obtain ⟨rfl, hrest⟩ := Prod.mk.inj h
      exact .step hstep.1 hstep.2 (ih (Prod.ext rfl hrest))
    | case2 dot word rest hstep =>
      rw [dotted, if_neg hstep] at h
      cases h
    | case3 tokens hshort =>
      rw [dotted.eq_2 _ hshort] at h
      cases h
      exact .nil
  · intro h
    induction h with
    | nil => rfl
    | step hdot hword _ ih => rw [dotted_step hdot hword, ih]

lemma Rule.lead?_eq_iff {tokens} :
    lead? tokens = some (names, []) ∧ names ≠ [] ↔ IsPath tokens names := by
  cases tokens with
  | nil => exact ⟨nofun, fun ⟨_, _, h, _⟩ => nomatch h⟩
  | cons first rest =>
    rw [lead?]
    constructor
    · rintro ⟨h, hne⟩
      split at h
      · next hthis =>
        exact ⟨first, rest, rfl, hthis, dotted_eq_iff.1 (Option.some.inj h), hne⟩
      · cases h
    · rintro ⟨_, _, ⟨⟩, hthis, hrest, hne⟩
      rw [if_pos hthis, dotted_eq_iff.2 hrest]
      exact ⟨rfl, hne⟩

lemma Tree.path?_eq_some_iff {tree : Tree} :
    tree.path? = some names ↔ tree.chain? = some names ∧ names ≠ [] := by
  cases tree with
  | this start => simp [path?, chain?, eq_comm]
  | name | node => simp [path?, chain?]
  | member object property =>
    refine ⟨fun h => ⟨h, ?_⟩, fun h => h.1⟩
    rintro rfl
    obtain ⟨names, -, h⟩ := Option.map_eq_some_iff.1 h
    simp at h

lemma Reading.path?_eq_some_iff {text : List Char} {tree} (h : Reading text tree c)
    (hfinish : c.token.kind = .finish) :
    tree.path? = some names ↔ IsPath (tokensOf text) names := by
  have hfollows : Rule.Follows (tokensOf text) tree c :=
    expression_follows (Rules.upTo_follow _) {} _ tree c h.run
  rw [Tree.path?_eq_some_iff, ← lead?_eq_iff]
  refine and_congr_left fun _ => ?_
  obtain ⟨names', left, hlead, hchain, hleft⟩ | ⟨hchain, hnone⟩ := hfollows
  · rw [hchain, hlead, hleft.1 hfinish, Option.some.injEq, Option.some.injEq, Prod.mk.injEq]
    exact ⟨fun e => ⟨e, rfl⟩, fun e => e.1⟩
  · rw [hchain]
    exact ⟨nofun, fun e => absurd e (hnone names)⟩

end SceneView.Script
