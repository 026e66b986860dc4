import SceneView.Proofs.Script.Reading

/-!
# The scope of `this`

Redirection replaces every `this` that no function encloses, all of them at once. Functions, field
initialisers and static blocks of a class each give `this` a meaning of their own, so the redirected
text is the intended one exactly when every `this` of a field initialiser or static block stands
inside a function as well.
-/

open List

namespace SceneView.Script

/-- Whether the form gives the `this` inside it a meaning of its own. -/
def Form.rebinds : Form → Bool
  | .function | .classField | .staticBlock => true
  | _ => false

namespace Tree

/-- The offsets of every `this` that is the one outside of the tree. -/
def outermost (tree : Tree) : List Nat :=
  (tree.occurrences.filter fun o => !o.1.any Form.rebinds).map (·.2)

lemma outermost_filter_sublist (tree : Tree) :
    (tree.occurrences.filter fun o => !o.1.any Form.rebinds).Sublist
      (tree.occurrences.filter fun o => !o.1.contains .function) := by
  refine monotone_filter_right _ fun o ho => ?_
  simp only [Bool.not_eq_true', any_eq_false, contains_eq_mem, decide_eq_false_iff_not]
    at ho ⊢
  exact fun hfunction => ho _ hfunction rfl

lemma outermost_sublist (tree : Tree) : tree.outermost.Sublist tree.roots := by
  rw [roots_eq]
  exact (outermost_filter_sublist tree).map _

lemma rebinds_iff_of_function (forms : List Form) :
    ((!forms.contains .function) = true → (!forms.any Form.rebinds) = true) ↔
      (.classField ∈ forms ∨ .staticBlock ∈ forms → .function ∈ forms) := by
  simp only [Bool.not_eq_true', any_eq_false, contains_eq_mem, decide_eq_false_iff_not]
  constructor
  · intro h hinner
    by_contra hfunction
    obtain hfield | hblock := hinner
    · exact h hfunction _ hfield rfl
    · exact h hfunction _ hblock rfl
  · intro h hfunction form hform hrebinds
    cases form with
    | function => exact hfunction hform
    | classField => exact hfunction (h (.inl hform))
    | staticBlock => exact hfunction (h (.inr hform))
    | _ => cases hrebinds

lemma length_outermost_eq_iff (tree : Tree) :
    tree.outermost.length = tree.roots.length ↔
      ∀ o ∈ tree.occurrences, .classField ∈ o.1 ∨ .staticBlock ∈ o.1 → .function ∈ o.1 := by
  simp only [roots_eq, outermost, length_map]
  constructor
  · intro hlength o ho
    have heq := (outermost_filter_sublist tree).eq_of_length hlength
    refine (rebinds_iff_of_function o.1).1 fun hfunction => ?_
    have hmem : o ∈ tree.occurrences.filter fun o => !o.1.contains .function :=
      mem_filter.2 ⟨ho, hfunction⟩
    rw [← heq] at hmem
    exact (mem_filter.1 hmem).2
  · intro h
    refine congrArg List.length (filter_congr fun o ho => ?_)
    have himp := (rebinds_iff_of_function o.1).2 (h o ho)
    have hback := fun hany => (mem_filter.1 ((outermost_filter_sublist tree).subset
      (mem_filter.2 ⟨ho, hany⟩))).2
    exact Bool.eq_iff_iff.2 ⟨hback, himp⟩

end Tree

lemma length_eq_of_redirectAt_eq {host text starts starts' high} (hhigh : high ≤ text.toList.length)
    (h : Stand text.toList 0 high starts) (h' : Stand text.toList 0 high starts')
    (heq : redirectAt host text starts = redirectAt host text starts') :
    starts.length = starts'.length := by
  have hlength := Span.length_substituteFrom (hostAccess host).toList h.apart
    fun i hi => (h.between i hi).2.trans hhigh
  have hlength' := Span.length_substituteFrom (hostAccess host).toList h'.apart
    fun i hi => (h'.between i hi).2.trans hhigh
  have haccess : (hostAccess host).toList.length = host.toList.length + 5 := by
    rw [hostAccess, String.toList_append, length_append]
    exact Nat.add_comm 5 _
  rw [String.ofList_injective heq] at hlength
  rw [haccess, Nat.mul_add] at hlength hlength'
  have hscaled : starts.length * (host.toList.length + 1) =
      starts'.length * (host.toList.length + 1) := by
    rw [Nat.mul_add, Nat.mul_add]
    omega
  exact Nat.eq_of_mul_eq_mul_right (Nat.succ_pos _) hscaled

/-- A `this` is redirected exactly if no function encloses it. The text is the one that redirects
every `this` from outside of the expression exactly if each `this` in a field initialiser or a
static block is in a function as well. -/
theorem this_redirected_outside_functions (host text : String) (e : HostExpression)
    (h : redirect? host text = some e) :
    ∃ tree, parse? text.toList = some tree ∧ tree.offsets.Pairwise Apart ∧
      (∀ i ∈ tree.offsets, thisChars <+: text.toList.drop i) ∧
      e.code = redirectAt host text
        ((tree.occurrences.filter fun o => !o.1.contains .function).map (·.2)) ∧
      (e.code = redirectAt host text tree.outermost ↔
        ∀ o ∈ tree.occurrences, .classField ∈ o.1 ∨ .staticBlock ∈ o.1 → .function ∈ o.1) := by
  obtain ⟨tree, c, hreading, rfl⟩ := redirect?_eq_some_iff.1 h
  have hroots := hreading.stand_roots
  have houter := hroots.of_count fun p => (Tree.outermost_sublist tree).count_le p
  refine ⟨tree, parse?_eq_some_iff.2 ⟨c, hreading⟩, hreading.stand.apart, hreading.stand.spelled,
    ?_, ?_⟩
  · rw [Tree.roots_eq]
  rw [← Tree.length_outermost_eq_iff]
  constructor
  · intro heq
    exact (length_eq_of_redirectAt_eq hreading.lies.start_le hroots houter heq).symm
  · intro hlength
    rw [(Tree.outermost_sublist tree).eq_of_length hlength]

/-- A `this` in the method of a class in an arrow function is kept. -/
theorem method_this_kept : ∃ tree,
    parse? "() => class { m() { return this.a } }".toList = some tree ∧ tree.offsets.Pairwise Apart ∧
      (∀ i ∈ tree.offsets,
        thisChars <+: "() => class { m() { return this.a } }".toList.drop i) ∧
      "() => class { m() { return this.a } }" =
        redirectAt "_host" "() => class { m() { return this.a } }"
          ((tree.occurrences.filter fun o => !o.1.contains .function).map (·.2)) ∧
      ("() => class { m() { return this.a } }" =
          redirectAt "_host" "() => class { m() { return this.a } }" tree.outermost ↔
        ∀ o ∈ tree.occurrences, .classField ∈ o.1 ∨ .staticBlock ∈ o.1 → .function ∈ o.1) :=
  this_redirected_outside_functions "_host" "() => class { m() { return this.a } }"
    ⟨"() => class { m() { return this.a } }", none⟩ (by decide +kernel)

/-- The `this` of a field initialiser is redirected to the host, although it is the new object. -/
theorem field_this_redirected :
    (parse? "class { a = this.b }".toList).map Tree.occurrences =
        some [([.classBody, .classField], 12)] ∧
      redirect? "_host" "class { a = this.b }" = some ⟨"class { a = this._host.b }", none⟩ ∧
      redirectAt "_host" "class { a = this.b }" [] = "class { a = this.b }" := by
  decide +kernel

end SceneView.Script
