import SceneView.Proofs.Bound
import SceneView.Proofs.Script.PropertyChain

/-!
# Values that follow the host

A value in braces is set once, and again whenever a property of the host changes that it is nothing
but the path to. The tokens of the value decide: `this` and names behind dots, whatever white space
and comments stand between them. What is repeated is the statement that sets the value, with the new
value in the place of the expression.
-/

namespace SceneView

open Script

lemma Script.pathText_eq (host : String) (names : List String) :
    pathText host names = "this." ++ host ++ String.join (names.map ("." ++ ·)) := by
  have h : ∀ path : String, names.foldl (fun path name => path ++ "." ++ name) path =
      path ++ String.join (names.map ("." ++ ·)) := by
    induction names with
    | nil => simp
    | cons name names ih =>
      intro path
      rw [List.foldl_cons, ih, List.map_cons, String.join_cons]
      simp only [String.append_assoc]
  exact h (hostAccess host)

lemma Setter.fill_eq (s : Setter) :
    ∃ front back, ∀ value, s.fill value = front ++ value ++ back := by
  unfold fill
  cases s.form with
  | event | observable | method | property => exact ⟨_, _, fun _ => rfl⟩

lemma Setter.isRepeatable_iff {s : Setter} :
    s.isRepeatable = true ↔ s.form ≠ .event ∧ s.form ≠ .observable := by
  unfold isRepeatable
  cases s.form <;> simp

lemma Statement.text_bind (engine path : String) (setter : Setter) :
    (Statement.bind engine path setter).text = observe engine path (setter.fill "value") :=
  rfl

namespace Value

/-- Whether a text is an expression can be found out by reading it. -/
instance (text : List Char) : Decidable (IsWhole text) :=
  match h : ((Rules.upTo (8 * text.length + 16)).expression {}).run (Cursor.ofText text) with
  | none => .isFalse fun ⟨_, _, hreading, _⟩ => nomatch h.symm.trans hreading.run
  | some (tree, c) =>
    if hwhole : c.flawed = false ∧ tree.isComplete = true ∧ c.token.kind = .finish then
      .isTrue ⟨tree, c, ⟨h, hwhole.1, hwhole.2.1⟩, hwhole.2.2⟩
    else
      .isFalse fun ⟨tree', c', hreading, hfinish⟩ => hwhole <| by
        cases h.symm.trans hreading.run
        exact ⟨hreading.sound, hreading.complete, hfinish⟩

/-- A bound value that is one expression is always translated. It is followed exactly if the tokens
of the expression are `this` and one or more names, each behind a dot, and it is neither a handler
of an event nor an observer. Then the binding observes the path of these names from the host, and
runs the statement that sets the value, with the new value in the place of the redirected
expression. -/
theorem translate_binds_iff_path (b : Binder) (name raw target : String) (options : Options)
    (body : String) (hinner : inner? raw = some body) (hwhole : IsWhole body.toList) :
    ∃ e t front back, bound? b.host raw = .ok (some e) ∧
      b.translate name raw target options = .ok t ∧
      (∀ value, t.setter.fill value = front ++ value ++ back) ∧
      t.apply.text = front ++ e.code ++ back ∧
      (t.bind?.isSome = true ↔
        (∃ names, IsPath (tokensOf body.toList) names) ∧
          options.form ≠ .event ∧ options.form ≠ .observable) ∧
      ∀ binding, t.bind? = some binding → ∃ names, IsPath (tokensOf body.toList) names ∧
        binding.text = "this." ++ b.engine ++ ".addBinding('this." ++ b.host ++
          String.join (names.map ("." ++ ·)) ++ "', (value) => \x7b " ++
          (front ++ "value" ++ back) ++ " \x7d);" := by
  obtain ⟨tree, c, hreading, hfinish⟩ := hwhole
  have hpath : ∀ names, tree.path? = some names ↔ IsPath (tokensOf body.toList) names :=
    fun _ => hreading.path?_eq_some_iff hfinish
  obtain ⟨e, hbound, hobserves⟩ : ∃ e, bound? b.host raw = .ok (some e) ∧
      e.path = tree.path?.map (pathText b.host) :=
    ⟨_, bound?_eq_ok_iff_leaves.2 ⟨body, tree, _, _, hinner, ⟨c, hreading, rfl, rfl⟩, rfl⟩, rfl⟩
  obtain ⟨t, htranslate, hvalue, hsetter, hbinding⟩ :=
    b.translate_of_bound hbound name target options
  obtain ⟨front, back, hfill⟩ := t.setter.fill_eq
  have hform : t.setter.form = options.form := by rw [hsetter]
  rw [hobserves] at hbinding
  refine ⟨e, t, front, back, hbound, htranslate, hfill, ?_, ?_, fun binding hbind => ?_⟩
  · rw [← hvalue]
    exact hfill t.value
  · rw [← hform, ← Setter.isRepeatable_iff, Translated.bind?, Option.isSome_map, hbinding]
    simp only [← hpath, ← Option.isSome_iff_exists]
    split
    · next hrepeatable => simp [hrepeatable]
    · next hrepeatable => simp [hrepeatable]
  · obtain ⟨⟨engine, path⟩, hobserved, rfl⟩ := Option.map_eq_some_iff.1 hbind
    rw [hbinding] at hobserved
    split at hobserved
    · obtain ⟨_, hpathText, hpair⟩ := Option.map_eq_some_iff.1 hobserved
      obtain ⟨names, hnames, rfl⟩ := Option.map_eq_some_iff.1 hpathText
      cases hpair
      refine ⟨names, (hpath names).1 hnames, ?_⟩
      have hopen : ".addBinding('this." = ".addBinding('" ++ "this." := rfl
      rw [Statement.text_bind, hfill, observe, pathText_eq, hopen]
      simp only [String.append_assoc]
    · cases hobserved

/-- A path over two lines, with a comment, an escape and a reserved word. -/
def windingPath : String :=
  "this /* host */ . \\u0061b\n  .if"

theorem windingPath_binds :
    inner? ("\x7b" ++ windingPath ++ "\x7d") = some windingPath ∧
    IsWhole windingPath.toList ∧ (∃ names, IsPath (tokensOf windingPath.toList) names) ∧
    (Binder.translate ⟨"_host", "_engine"⟩ "x" ("\x7b" ++ windingPath ++ "\x7d") "box" {}).map
        (fun t => (t.apply.text, t.bind?.map (·.text))) =
      .ok ("this.box.x = this._host /* host */ . \\u0061b\n  .if;",
        some ("this._engine.addBinding('this._host.ab.if', " ++
          "(value) => \x7b this.box.x = value; \x7d);")) := by
  have hinner : inner? ("\x7b" ++ windingPath ++ "\x7d") = some windingPath := by decide +kernel
  have hwhole : IsWhole windingPath.toList := by decide +kernel
  have htext : (Binder.translate ⟨"_host", "_engine"⟩ "x" ("\x7b" ++ windingPath ++ "\x7d") "box"
      {}).map (fun t => (t.apply.text, t.bind?.map (·.text))) =
      .ok ("this.box.x = this._host /* host */ . \\u0061b\n  .if;",
        some ("this._engine.addBinding('this._host.ab.if', " ++
          "(value) => \x7b this.box.x = value; \x7d);")) := by
    decide +kernel
  obtain ⟨e, t, front, back, -, htranslate, -, -, hbinds, -⟩ :=
    translate_binds_iff_path ⟨"_host", "_engine"⟩ "x" _ "box" {} _ hinner hwhole
  refine ⟨hinner, hwhole, (hbinds.1 ?_).1, htext⟩
  rw [htranslate] at htext
  obtain ⟨-, hbind⟩ := Prod.mk.inj (Except.ok.inj htext)
  obtain ⟨binding, hbinding, -⟩ := Option.map_eq_some_iff.1 hbind
  exact Option.isSome_iff_exists.2 ⟨binding, hbinding⟩

example : ["(this).a", "this?.a", "this['a']", "this"].all (fun body =>
    (redirect? "_host" body).map (·.path) == some none) = true := by
  decide +kernel

end Value

end SceneView
