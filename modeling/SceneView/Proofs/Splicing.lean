import SceneView.Proofs.Bound

/-!
# Values spliced into statements

The code of a value in braces is put into a statement as it stands, without parentheses around it.
So a statement that passes the value on has as many arguments as the value has expressions: only a
value of one expression is one argument. A comment at the end of the value swallows what follows it.
-/

open List

namespace SceneView

open Script Value

namespace Script.Phrase

def spelling {l : Layer} (p : Phrase l) : String :=
  String.ofList p.chars

def append : Phrase .list → Phrase .list → Phrase .list
  | last item, q => more item q
  | more item rest, q => more item (rest.append q)

lemma chars_append (q : Phrase .list) :
    (p : Phrase .list) → (p.append q).chars = p.chars ++ ',' :: ' ' :: q.chars
  | last item => by rw [append, chars, chars]
  | more item rest => by
    rw [append, chars, chars_append q rest, chars]
    simp only [append_assoc, cons_append]

lemma tree_append (q : Phrase .list) : (p : Phrase .list) → (start : Nat) →
    (p.append q).tree start = p.tree start ++ q.tree (start + p.chars.length + 2)
  | last item, start => by
    rw [append]
    rfl
  | more item rest, start => by
    have hlength : start + item.chars.length + 2 + rest.chars.length + 2 =
        start + (more item rest).chars.length + 2 := by
      simp only [chars, length_append, length_cons]
      omega
    rw [append, tree, tree_append q rest, hlength]
    rfl

/-- A property is given the first expression of a list, and the others follow. -/
def assignFirst (object : Phrase .chain) (property : Word) : Phrase .list → Phrase .list
  | last item => last (complex (assign object property item))
  | more item rest => more (complex (assign object property item)) rest

lemma chars_assignFirst (object : Phrase .chain) (property : Word) (q : Phrase .list) :
    (assignFirst object property q).chars =
      object.chars ++ '.' :: (property.chars ++ ' ' :: '=' :: ' ' :: q.chars) := by
  cases q with
  | last item => rfl
  | more item rest => simp [assignFirst, chars]

lemma tree_assignFirst (object : Phrase .chain) (property : Word) (q : Phrase .list) :
    ∃ first others,
      q.tree ((object.member property).chars.length + 3) = first :: others ∧
      (assignFirst object property q).tree 0 =
        .node .assign [(object.member property).tree 0, first] :: others := by
  have hmember : (object.member property).chars.length + 3 =
      0 + object.chars.length + 1 + property.chars.length + 3 := by
    simp only [chars, length_append, length_cons]
    omega
  rw [hmember]
  cases q with
  | last item => exact ⟨_, [], rfl, rfl⟩
  | more item rest =>
    have hrest : 0 + (complex (assign object property item)).chars.length + 2 =
        0 + object.chars.length + 1 + property.chars.length + 3 + item.chars.length + 2 := by
      simp only [chars, length_append, length_cons]
      omega
    exact ⟨_, _, rfl, congrArg (fun start => _ :: rest.tree start) hrest⟩

lemma length_tree_eq_one_iff (p : Phrase .list) (start : Nat) :
    (p.tree start).length = 1 ↔ ∃ item, p = last item := by
  cases p with
  | last item => exact ⟨fun _ => ⟨item, rfl⟩, fun _ => rfl⟩
  | more item rest =>
    have hrest : ∀ start, 0 < (rest.tree start).length := by
      intro start
      cases rest <;> exact Nat.succ_pos _
    constructor
    · intro h
      have hpos := hrest (start + item.chars.length + 2)
      rw [tree, length_cons] at h
      omega
    · rintro ⟨item', h⟩
      cases h

/-- A comment up to the end of the text. -/
def remark (words : List Char) : List Char :=
  ' ' :: '/' :: '/' :: words

lemma skipGap_line {words} (h : ∀ c ∈ words, isLineBreak c = false) (newline : Bool) :
    skipGap .line newline words = ([], newline, true) := by
  induction words with
  | nil => rfl
  | cons c words ih =>
    obtain ⟨hc, hwords⟩ := forall_mem_cons.1 h
    rw [skipGap, hc]
    exact ih hwords

lemma scan_remark {words} (h : ∀ c ∈ words, isLineBreak c = false) (total : Nat) :
    Cursor.scan total (remark words) = .atToken total total .finish "" [] := by
  have hgap : skipGap .plain false (remark words) = ([], false, true) := skipGap_line h false
  rw [Cursor.scan, Cursor.next, hgap]
  rfl

lemma closes_remark {words} (h : ∀ c ∈ words, isLineBreak c = false) : Closes (remark words) := by
  refine ⟨rfl, fun total => ?_, fun total => ?_, fun total => ?_⟩ <;> rw [scan_remark h]
  · rfl
  · rintro ⟨⟩
  · rfl

end Script.Phrase

open Script.Phrase

/-- The text is one statement: the expression and the semicolon that ends it. -/
def ReadsAs (text : String) (tree : Tree) : Prop :=
  ∃ front, Leaves text.toList tree front [';']

lemma leaves_unique {text front trail front' trail' tree tree'} (h : Leaves text tree front trail)
    (h' : Leaves text tree' front' trail') : tree = tree' ∧ trail = trail' := by
  obtain ⟨c, hreading, -, rfl⟩ := h
  obtain ⟨c', hreading', -, rfl⟩ := h'
  have hsame : (tree, c) = (tree', c') := Option.some.inj (hreading.run.symm.trans hreading'.run)
  cases hsame
  exact ⟨rfl, rfl⟩

lemma ReadsAs.unique {text tree tree'} (h : ReadsAs text tree) (h' : ReadsAs text tree') :
    tree = tree' := by
  obtain ⟨front, hleaves⟩ := h
  obtain ⟨front', hleaves'⟩ := h'
  exact (leaves_unique hleaves hleaves').1

lemma ReadsAs.parse?_ne_none {text tree} (h : ReadsAs text tree) : parse? text.toList ≠ none := by
  obtain ⟨front, c, hreading, -, -⟩ := h
  rw [parse?_eq_some_iff.2 ⟨c, hreading⟩]
  exact Option.some_ne_none tree

lemma readsAs_phrase {text} (p : Phrase .list) (h : text.toList = p.chars ++ [';']) :
    ReadsAs text (tree.sequence (p.tree 0)) := by
  refine ⟨p.chars, ?_⟩
  rw [h]
  exact leaves_phrase p (by decide) []

namespace Setter

def subscribeWord : Word :=
  ⟨'s', ['u', 'b', 's', 'c', 'r', 'i', 'b', 'e'], .refl true, .refl true⟩

def addWord : Word := ⟨'a', ['d', 'd'], .refl true, .refl true⟩

/-- The function that a setter passes the value to. -/
inductive Calls (s : Setter) : Phrase .chain → Prop where
  | event {object : Phrase .chain} {name : Word} :
    s.form = .event →
    s.target.text = object.spelling →
    s.name = name.spelling →
    Calls s ((object.member name).member subscribeWord)
  | observable {object : Phrase .chain} {name : Word} :
    s.form = .observable →
    s.target.text = object.spelling →
    s.name ++ "Observable" = name.spelling →
    Calls s ((object.member name).member addWord)
  | method {object : Phrase .chain} {name : Word} :
    s.form = .method name.spelling →
    s.target.text = object.spelling →
    Calls s (object.member name)

/-- The property that a setter gives the value. -/
structure Assigns (s : Setter) (object : Phrase .chain) (name : Word) : Prop where
  form : s.form = .property
  target : s.target.text = object.spelling
  name : s.name = name.spelling

/-- The text is one statement that gives the setter one value. -/
inductive Gives (s : Setter) (text : String) (value : Tree) : Prop where
  | call {callee : Phrase .chain} :
    s.Calls callee →
    ReadsAs text (.node .call [callee.tree 0, value]) →
    Gives s text value
  | assign {object : Phrase .chain} {name : Word} :
    s.Assigns object name →
    ReadsAs text (.node .assign [(object.member name).tree 0, value]) →
    Gives s text value

/-- The target and the names of a setter are spelled as phrases. -/
def IsSpelled (s : Setter) : Prop :=
  (∃ callee, s.Calls callee) ∨ ∃ object name, s.Assigns object name

variable {s : Setter} {callee object : Phrase .chain} {name : Word}

lemma Calls.toList_fill (h : s.Calls callee) (code : String) :
    (s.fill code).toList = callee.chars ++ '(' :: (code.toList ++ [')', ';']) := by
  cases h with
  | event hform htarget hname =>
    simp [fill, hform, htarget, hname, Phrase.spelling, Word.spelling, chars, Word.chars,
      subscribeWord]
  | @observable object name hform htarget hname =>
    have hlist := congrArg String.toList hname
    simp only [String.toList_append, Word.spelling, String.toList_ofList] at hlist
    have hadd : addWord.chars = ['a', 'd', 'd'] := rfl
    simp [fill, hform, htarget, Phrase.spelling, chars, ← hlist, hadd]
  | method hform htarget =>
    simp [fill, hform, htarget, Phrase.spelling, Word.spelling, chars, Word.chars]

lemma Assigns.toList_fill (h : s.Assigns object name) (code : String) :
    (s.fill code).toList =
      object.chars ++ '.' :: (name.chars ++ ' ' :: '=' :: ' ' :: (code.toList ++ [';'])) := by
  simp [fill, h.form, h.target, h.name, Phrase.spelling, Word.spelling, Word.chars]

lemma Calls.readsAs (h : s.Calls callee) (q : Phrase .list) :
    ReadsAs (s.fill q.spelling)
      (.node .call (callee.tree 0 :: q.tree (callee.chars.length + 1))) := by
  have htext : (s.fill q.spelling).toList =
      (last (simple (link (call callee q)))).chars ++ [';'] := by
    rw [h.toList_fill, Phrase.spelling, String.toList_ofList]
    simp [chars]
  have hreads := readsAs_phrase _ htext
  simpa [tree, tree.sequence] using hreads

lemma Assigns.readsAs (h : s.Assigns object name) (q : Phrase .list) :
    ∃ first others, q.tree ((object.member name).chars.length + 3) = first :: others ∧
      ReadsAs (s.fill q.spelling)
        (tree.sequence (.node .assign [(object.member name).tree 0, first] :: others)) := by
  obtain ⟨first, others, htree, hassign⟩ := tree_assignFirst object name q
  refine ⟨first, others, htree, ?_⟩
  rw [← hassign]
  refine readsAs_phrase _ ?_
  rw [h.toList_fill, chars_assignFirst, Phrase.spelling, String.toList_ofList]
  simp

lemma gives_iff (h : s.IsSpelled) (q : Phrase .list) :
    (∃ value, s.Gives (s.fill q.spelling) value) ↔ ∃ item, q = last item := by
  constructor
  · rintro ⟨value, ⟨hcalls, hreads⟩ | ⟨hassigns, hreads⟩⟩
    · rename_i callee
      have htree := (hcalls.readsAs q).unique hreads
      simp only [Tree.node.injEq, List.cons.injEq, true_and] at htree
      rw [← length_tree_eq_one_iff q (callee.chars.length + 1), htree]
      rfl
    · rename_i object name
      obtain ⟨first, others, htree, hsequence⟩ := hassigns.readsAs q
      rw [← length_tree_eq_one_iff q ((object.member name).chars.length + 3), htree]
      cases others with
      | nil => rfl
      | cons second others => exact absurd (hsequence.unique hreads) (by simp [tree.sequence])
  · rintro ⟨item, rfl⟩
    obtain ⟨callee, hcalls⟩ | ⟨object, name, hassigns⟩ := h
    · exact ⟨_, .call hcalls (hcalls.readsAs (last item))⟩
    · obtain ⟨first, others, htree, hsequence⟩ := hassigns.readsAs (last item)
      rw [tree] at htree
      obtain ⟨rfl, rfl⟩ := List.cons.inj htree
      exact ⟨_, .assign hassigns hsequence⟩

lemma Calls.refuses_remark (h : s.Calls callee) (q : Phrase .list) {words}
    (hwords : ∀ c ∈ words, isLineBreak c = false) :
    parse? (s.fill (String.ofList (q.chars ++ remark words))).toList = none := by
  have hswallowed : ∀ c ∈ words ++ [')', ';'], isLineBreak c = false := by
    intro c hc
    obtain hc | hc := mem_append.1 hc
    · exact hwords c hc
    · simp only [mem_cons, not_mem_nil, or_false] at hc
      obtain rfl | rfl := hc <;> rfl
  have htext : (s.fill (String.ofList (q.chars ++ remark words))).toList =
      callee.chars ++ '(' :: (q.chars ++ remark (words ++ [')', ';'])) := by
    rw [h.toList_fill, String.toList_ofList]
    simp [remark]
  rw [htext]
  refine parse?_call_eq_none q callee (closes_remark hswallowed) fun total => ?_
  rw [scan_remark hswallowed]
  rintro ⟨⟩

lemma Assigns.swallows_remark (h : s.Assigns object name) (q : Phrase .list) {words}
    (hwords : ∀ c ∈ words, isLineBreak c = false) :
    IsWhole (s.fill (String.ofList (q.chars ++ remark words))).toList := by
  have hswallowed : ∀ c ∈ words ++ [';'], isLineBreak c = false := by
    intro c hc
    obtain hc | hc := mem_append.1 hc
    · exact hwords c hc
    · rw [mem_singleton.1 hc]
      rfl
  have htext : (s.fill (String.ofList (q.chars ++ remark words))).toList =
      (assignFirst object name q).chars ++ remark (words ++ [';']) := by
    rw [h.toList_fill, chars_assignFirst, String.toList_ofList]
    simp [remark]
  rw [htext]
  refine ⟨_, _, (assignFirst object name q).reading (closes_remark hswallowed), ?_⟩
  rw [scan_remark hswallowed]
  rfl

lemma Calls.refuses_mark (h : s.Calls callee) (q : Phrase .list) {d : Char} (hd : d ∈ closers)
    (hparen : d ≠ ')') (more : List Char) :
    parse? (s.fill (String.ofList (q.chars ++ d :: more))).toList = none := by
  have htext : (s.fill (String.ofList (q.chars ++ d :: more))).toList =
      callee.chars ++ '(' :: (q.chars ++ d :: (more ++ [')', ';'])) := by
    rw [h.toList_fill, String.toList_ofList]
    simp
  rw [htext]
  refine parse?_call_eq_none q callee (.mark hd _) fun total => ?_
  have hmark : ∃ m, soleMark? d = some m ∧ m ≠ .rightParen := by
    simp only [closers, mem_cons, not_mem_nil, or_false] at hd
    obtain rfl | rfl | rfl | rfl | rfl := hd
    · exact absurd rfl hparen
    all_goals exact ⟨_, rfl, by decide⟩
  obtain ⟨m, hm, hne⟩ := hmark
  rw [scan_sole total hm]
  exact fun heq => hne (Kind.mark.inj heq)

lemma Assigns.not_readsAs_mark (h : s.Assigns object name) (q : Phrase .list) {d} (hd : d ∈ closers)
    (more : List Char) (tree : Tree) :
    ¬ ReadsAs (s.fill (String.ofList (q.chars ++ d :: more))) tree := by
  have htext : (s.fill (String.ofList (q.chars ++ d :: more))).toList =
      (assignFirst object name q).chars ++ d :: (more ++ [';']) := by
    rw [h.toList_fill, chars_assignFirst, String.toList_ofList]
    simp
  have hleaves := leaves_phrase (assignFirst object name q) hd (more ++ [';'])
  rw [← htext] at hleaves
  rintro ⟨front, htail⟩
  have htrail := (leaves_unique hleaves htail).2
  simp at htrail

lemma not_gives_remark (q : Phrase .list) {words} (hwords : ∀ c ∈ words, isLineBreak c = false)
    (value : Tree) : ¬ s.Gives (s.fill (String.ofList (q.chars ++ remark words))) value := by
  rintro (⟨hcalls, hreads⟩ | ⟨hassigns, front, hleaves⟩)
  · exact hreads.parse?_ne_none (hcalls.refuses_remark q hwords)
  · have htrail := (isWhole_iff hleaves).1 (hassigns.swallows_remark q hwords)
    cases htrail

lemma not_gives_mark (q : Phrase .list) {d : Char} (hd : d ∈ closers) (hparen : d ≠ ')')
    (more : List Char) (value : Tree) :
    ¬ s.Gives (s.fill (String.ofList (q.chars ++ d :: more))) value := by
  rintro (⟨hcalls, hreads⟩ | ⟨hassigns, hreads⟩)
  · exact hreads.parse?_ne_none (hcalls.refuses_mark q hd hparen more)
  · exact hassigns.not_readsAs_mark q hd more _ hreads

end Setter

lemma Statement.text_construct (member : String) (value : Construction) :
    (construct member value).text = "this." ++ member ++ " = " ++ value.text ++ ";" :=
  rfl

namespace Construction

lemma text_texture (type source scene : String) : (texture type source scene).text =
    "new " ++ type ++ "(" ++ source ++ ", this." ++ scene ++ ")" :=
  rfl

lemma text_model (type scene name url : String) : (model type scene name url).text =
    "new " ++ type ++ "(this." ++ scene ++ ", '" ++ name ++ "', " ++ url ++ ")" :=
  rfl

def sceneArgument (scene : Word) : Phrase .single :=
  simple (link (member this scene))

variable (member : Word) (type : Variable) (scene : Word) (q : Phrase .list)

lemma readsAs_stored {value} (chain : Phrase .chain) (h : value.text.toList = chain.chars) :
    ReadsAs (Statement.construct member.spelling value).text
      (.node .assign
        [.member (.this 0) member.spelling, chain.tree (member.chars.length + 8)]) := by
  have htext : (Statement.construct member.spelling value).text.toList =
      (last (complex (assign this member (simple (link chain))))).chars ++ [';'] := by
    simp [Statement.text_construct, Word.spelling, chars, thisChars, h]
  have hoffset : 0 + thisChars.length + 1 + member.chars.length + 3 = member.chars.length + 8 := by
    rw [show thisChars.length = 4 from rfl]
    omega
  have hreads := readsAs_phrase _ htext
  simpa only [tree, tree.sequence, chars, hoffset] using hreads

lemma readsAs_texture : ∃ start start',
    ReadsAs
      (Statement.construct member.spelling
        (texture type.spelling q.spelling scene.spelling)).text
      (.node .assign [.member (.this 0) member.spelling, .node .new (.name type.spelling ::
        (q.tree start ++ [.member (.this start') scene.spelling]))]) := by
  have htext : (texture type.spelling q.spelling scene.spelling).text.toList =
      (construct type (q.append (last (sceneArgument scene)))).chars := by
    simp [text_texture, Phrase.spelling, Word.spelling, chars, chars_append, sceneArgument,
      thisChars]
  have hreads := readsAs_stored member _ htext
  rw [tree, tree_append] at hreads
  exact ⟨_, _, hreads⟩

lemma readsAs_model (name : PlainText) : ∃ start start',
    ReadsAs
      (Statement.construct member.spelling
        (model type.spelling scene.spelling (String.ofList name.chars) q.spelling)).text
      (.node .assign [.member (.this 0) member.spelling, .node .new (.name type.spelling ::
        .member (.this start) scene.spelling :: .node .literal [] :: q.tree start')]) := by
  have htext :
      (model type.spelling scene.spelling (String.ofList name.chars) q.spelling).text.toList =
        (construct type (more (sceneArgument scene)
          (more (simple (link (Phrase.text name))) q))).chars := by
    simp [text_model, Phrase.spelling, Word.spelling, chars, sceneArgument, thisChars]
  exact ⟨_, _, readsAs_stored member _ htext⟩

end Construction

lemma bound?_spliced (host : Word) (p : Phrase .list) {cs rest} (h : Closes rest)
    (htrim : Text.trimBy Text.isBlank cs = p.chars ++ rest) :
    ∃ path, bound? host.spelling (braced cs) =
      .ok (some ⟨String.ofList ((p.redirect host).chars ++ rest), path⟩) := by
  refine ⟨_, bound?_eq_ok_iff.2 ⟨_, ?_, ?_, p.redirect?_phrase host h⟩⟩
  · rw [inner?_braced, htrim]
  · intro hempty
    have hlength := congrArg (List.length ∘ String.toList) hempty
    have hpos := p.length_pos
    simp only [Function.comp_apply, String.toList_ofList, length_append] at hlength
    have hnil : "".toList.length = 0 := rfl
    omega

lemma translate_spliced (host : Word) (engine name target : String) (options : Options)
    (p : Phrase .list) {cs rest} (h : Closes rest)
    (htrim : Text.trimBy Text.isBlank cs = p.chars ++ rest) :
    ∃ t, Binder.translate ⟨host.spelling, engine⟩ name (braced cs) target options = .ok t ∧
      t.apply.text = t.setter.fill (String.ofList ((p.redirect host).chars ++ rest)) := by
  obtain ⟨path, hbound⟩ := bound?_spliced host p h htrim
  obtain ⟨t, ht, hvalue, -⟩ :=
    Binder.translate_of_bound (b := ⟨host.spelling, engine⟩) hbound name target options
  exact ⟨t, ht, congrArg t.setter.fill hvalue⟩

lemma trim_remark (p : Phrase .list) (words : List Char) : ∃ words' ⊆ words,
    Text.trimBy Text.isBlank (p.chars ++ remark words) = p.chars ++ remark words' := by
  obtain ⟨c, cs, hchars, hc⟩ := p.beginsFirm
  obtain ⟨words', hwords⟩ := Text.trimBy_cons (show Text.isBlank '/' = false from rfl) words
  have hprefix : '/' :: words' <+: '/' :: words := by
    rw [← hwords, Text.trimBy_eq_rdropWhile, dropWhile_cons_of_neg (by decide)]
    exact rdropWhile_prefix _ _
  refine ⟨words', (cons_prefix_cons.1 hprefix).2.subset, ?_⟩
  have hsplit : p.chars ++ remark words = c :: (cs ++ [' ', '/']) ++ '/' :: words := by
    simp [remark, hchars]
  rw [hsplit, Text.trimBy_append hc rfl, hwords]
  simp [remark, hchars]

lemma redirect_eq_last_iff (host : Word) (p : Phrase .list) :
    (∃ item, p.redirect host = last item) ↔ ∃ item, p = last item := by
  cases p with
  | last item => exact ⟨fun _ => ⟨item, rfl⟩, fun _ => ⟨_, rfl⟩⟩
  | more item rest => exact ⟨nofun, nofun⟩

/-- A value in braces is spliced expression by expression. A statement that passes it on, or an
object built with it, has one argument for each of its expressions, and an assignment takes only
the first; so a setter is given one value exactly if the value is one expression. A comment at the
end of the value, or a mark that closes it, leaves no statement with that value. -/
theorem spliced_alone_iff (host : Word) (engine : String) (p : Phrase .list) :
    (∀ name target options, ∃ t,
      Binder.translate ⟨host.spelling, engine⟩ name (braced p.chars) target options = .ok t ∧
      (∀ callee, t.setter.Calls callee → ReadsAs t.apply.text
        (.node .call (callee.tree 0 :: (p.redirect host).tree (callee.chars.length + 1)))) ∧
      (t.setter.IsSpelled →
        ((∃ value, t.setter.Gives t.apply.text value) ↔ ∃ item, p = .last item))) ∧
    (∀ quoteLiteral, ∃ code,
      Binder.argument ⟨host.spelling, engine⟩ (braced p.chars) quoteLiteral = .ok code ∧
      ∀ (member : Word) (type : Variable) (scene : Word),
        (∃ start start', ReadsAs
          (Statement.construct member.spelling (.texture type.spelling code scene.spelling)).text
          (.node .assign [.member (.this 0) member.spelling, .node .new (.name type.spelling ::
            ((p.redirect host).tree start ++ [.member (.this start') scene.spelling]))])) ∧
        ∀ label : PlainText, ∃ start start', ReadsAs
          (Statement.construct member.spelling
            (.model type.spelling scene.spelling (String.ofList label.chars) code)).text
          (.node .assign [.member (.this 0) member.spelling, .node .new (.name type.spelling ::
            .member (.this start) scene.spelling :: .node .literal [] ::
              (p.redirect host).tree start')])) ∧
    (∀ start, ((p.redirect host).tree start).length = 1 ↔ ∃ item, p = .last item) ∧
    (∀ words name target options, (∀ c ∈ words, isLineBreak c = false) → ∃ t,
      Binder.translate ⟨host.spelling, engine⟩ name (braced (p.chars ++ remark words)) target
        options = .ok t ∧
      ∀ value, ¬ t.setter.Gives t.apply.text value) ∧
    (∀ d more name target options, d ∈ closers → d ≠ ')' → ∃ t,
      Binder.translate ⟨host.spelling, engine⟩ name (braced (p.chars ++ d :: more)) target
        options = .ok t ∧
      ∀ value, ¬ t.setter.Gives t.apply.text value) := by
  have htrim : Text.trimBy Text.isBlank p.chars = p.chars ++ [] := by
    rw [p.trimBy_chars, List.append_nil]
  refine ⟨fun name target options => ?_, fun quoteLiteral => ?_, fun start => ?_,
    fun words name target options hwords => ?_, fun d more name target options hd hparen => ?_⟩
  · obtain ⟨t, ht, htext⟩ := translate_spliced host engine name target options p .nil htrim
    rw [List.append_nil] at htext
    refine ⟨t, ht, fun callee hcalls => ?_, fun hspelled => ?_⟩
    · rw [htext]
      exact hcalls.readsAs (p.redirect host)
    · rw [htext, ← redirect_eq_last_iff host]
      exact Setter.gives_iff hspelled (p.redirect host)
  · obtain ⟨path, hbound⟩ := bound?_spliced host p .nil htrim
    rw [List.append_nil] at hbound
    refine ⟨_, Binder.argument_of_bound (b := ⟨host.spelling, engine⟩) hbound quoteLiteral,
      fun member type scene => ⟨?_, fun label => ?_⟩⟩
    · exact Construction.readsAs_texture member type scene (p.redirect host)
    · exact Construction.readsAs_model member type scene (p.redirect host) label
  · rw [length_tree_eq_one_iff, redirect_eq_last_iff]
  · obtain ⟨words', hsubset, hremark⟩ := trim_remark p words
    have hwords' : ∀ c ∈ words', isLineBreak c = false := fun c hc => hwords c (hsubset hc)
    obtain ⟨t, ht, htext⟩ :=
      translate_spliced host engine name target options p (closes_remark hwords') hremark
    refine ⟨t, ht, fun value => ?_⟩
    rw [htext]
    exact Setter.not_gives_remark (p.redirect host) hwords' value
  · obtain ⟨more', -, hmark⟩ := trimBy_closed p hd more
    obtain ⟨t, ht, htext⟩ :=
      translate_spliced host engine name target options p (.mark hd more') hmark
    refine ⟨t, ht, fun value => ?_⟩
    rw [htext]
    exact Setter.not_gives_mark (p.redirect host) hd hparen more' value

def twoHandlers : Phrase .list :=
  .more (.simple (.link (.member .this ⟨'a', [], .refl true, .refl true⟩)))
    (.last (.simple (.link (.member .this ⟨'b', [], .refl true, .refl true⟩))))

def hostWord : Word := ⟨'_', ['h', 'o', 's', 't'], .refl true, .refl true⟩

def memberX : Phrase .chain := .member .this ⟨'x', [], .refl true, .refl true⟩

def clickWord : Word := ⟨'o', ['n', 'C', 'l', 'i', 'c', 'k'], .refl true, .refl true⟩

def clickSetter : Setter := ⟨⟨"x", false⟩, "onClick", .event⟩

lemma clickSetter_calls :
    clickSetter.Calls ((memberX.member clickWord).member Setter.subscribeWord) :=
  .event rfl (by decide) (by decide)

/-- Two expressions are two arguments. A comment behind them swallows the end of the statement, and
a semicolon behind them keeps the call from being closed. -/
theorem twoHandlers_spliced :
    (∃ t, Binder.translate ⟨"_host", "_bindingEngine"⟩ "onClick" "\x7bthis.a, this.b\x7d" "x"
        { isEvent := true } = .ok t ∧
      ReadsAs t.apply.text (.node .call
        [.member (.member (.member (.this 0) "x") "onClick") "subscribe",
          .member (.member (.this 25) "_host") "a", .member (.member (.this 39) "_host") "b"]) ∧
      ¬ ∃ value, t.setter.Gives t.apply.text value) ∧
    (∃ t, Binder.translate ⟨"_host", "_bindingEngine"⟩ "onClick"
        (braced (twoHandlers.chars ++ remark ['n', 'o', 't', 'e'])) "x" { isEvent := true } = .ok t ∧
      ∀ value, ¬ t.setter.Gives t.apply.text value) ∧
    ∃ t, Binder.translate ⟨"_host", "_bindingEngine"⟩ "onClick"
        (braced (twoHandlers.chars ++ [';'])) "x" { isEvent := true } = .ok t ∧
      ∀ value, ¬ t.setter.Gives t.apply.text value := by
  obtain ⟨htranslate, -, -, hremark, hmark⟩ :=
    spliced_alone_iff hostWord "_bindingEngine" twoHandlers
  have hwords : ['n', 'o', 't', 'e'].all (isLineBreak · = false) = true := by decide
  refine ⟨?_, hremark _ "onClick" "x" { isEvent := true } (by simpa using hwords),
    hmark ';' [] "onClick" "x" { isEvent := true } (by decide) (by decide)⟩
  obtain ⟨t, ht, hreads, hgives⟩ := htranslate "onClick" "x" { isEvent := true }
  have hraw : braced twoHandlers.chars = "\x7bthis.a, this.b\x7d" := by decide +kernel
  have hhost : hostWord.spelling = "_host" := by decide
  rw [hraw, hhost] at ht
  have hsetter : t.setter = clickSetter := by
    have hresult : Binder.translate ⟨"_host", "_bindingEngine"⟩ "onClick" "\x7bthis.a, this.b\x7d"
        "x" { isEvent := true } = .ok ⟨"onClick", "this._host.a, this._host.b", clickSetter, none,
          none⟩ := by
      decide +kernel
    cases ht.symm.trans hresult
    rfl
  have hcalls := clickSetter_calls
  rw [← hsetter] at hcalls
  refine ⟨t, ht, hreads _ hcalls, fun halone => ?_⟩
  obtain ⟨item, hitem⟩ := (hgives (.inl ⟨_, hcalls⟩)).1 halone
  cases hitem

/-- The two expressions of a handler are emitted without parentheses, so the call has no single
argument. -/
theorem two_handlers_emitted :
    Binder.translate ⟨"_host", "_bindingEngine"⟩ "onClick" "\x7bthis.a, this.b\x7d" "x"
      { isEvent := true } =
        .ok ⟨"onClick", "this._host.a, this._host.b", clickSetter, none, none⟩ ∧
    clickSetter.fill "this._host.a, this._host.b" =
      "this.x.onClick.subscribe(this._host.a, this._host.b);" ∧
    ¬ ∃ value, clickSetter.Gives "this.x.onClick.subscribe(this._host.a, this._host.b);" value := by
  have hfill : clickSetter.fill (twoHandlers.redirect hostWord).spelling =
      "this.x.onClick.subscribe(this._host.a, this._host.b);" := by decide
  refine ⟨by decide +kernel, by decide, ?_⟩
  rw [← hfill, Setter.gives_iff (.inl ⟨_, clickSetter_calls⟩)]
  rintro ⟨item, hitem⟩
  cases hitem

end SceneView
