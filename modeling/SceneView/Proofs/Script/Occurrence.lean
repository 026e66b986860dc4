import Mathlib.Data.List.Count
import SceneView.Script.Tree

/-!
# Where `this` stands in a tree

Every `this` of a syntax tree stands at an offset, below the forms that enclose it. The root
references of a tree are those that no function encloses. Reading an expression as the target of an
assignment keeps every `this` of it at most once.
-/

open List

namespace SceneView.Script

namespace Tree

mutual

/-- Every `this` of the tree: the forms around it, from the outermost to the innermost, and its
offset. -/
def occurrences : Tree → List (List Form × Nat)
  | .this start => [([], start)]
  | .name _ => []
  | .member object _ => object.occurrences
  | .node form parts => (occurrencesAll parts).map fun (forms, start) => (form :: forms, start)

def occurrencesAll : List Tree → List (List Form × Nat)
  | [] => []
  | t :: ts => t.occurrences ++ occurrencesAll ts

end

def offsets (tree : Tree) : List Nat :=
  tree.occurrences.map (·.2)

lemma occurrencesAll_eq_flatMap (ts : List Tree) : occurrencesAll ts = ts.flatMap occurrences := by
  induction ts with
  | nil => rfl
  | cons t ts ih => rw [occurrencesAll, ih, flatMap_cons]

@[simp]
lemma offsets_this (start : Nat) : (Tree.this start).offsets = [start] := rfl

@[simp]
lemma offsets_name (text : String) : (Tree.name text).offsets = [] := rfl

@[simp]
lemma offsets_member (object : Tree) (property : String) :
    (Tree.member object property).offsets = object.offsets := rfl

@[simp]
lemma offsets_node (form : Form) (parts : List Tree) :
    (Tree.node form parts).offsets = parts.flatMap offsets := by
  rw [offsets, occurrences, occurrencesAll_eq_flatMap, map_map, map_flatMap]
  rfl

mutual

lemma roots_eq (tree : Tree) :
    tree.roots = (tree.occurrences.filter fun o => !o.1.contains .function).map (·.2) := by
  match tree with
  | .this _ => rfl
  | .name _ => rfl
  | .member object _ => exact roots_eq object
  | .node form parts =>
    have hparts := rootsAll_eq parts
    by_cases hform : form = .function
    · subst hform
      rw [roots, occurrences, filter_map]
      simp [Function.comp_def]
    · have hroots : (Tree.node form parts).roots = rootsAll parts := by
        cases form with
        | function => exact absurd rfl hform
        | _ => rfl
      rw [hroots, hparts, occurrences, filter_map, map_map]
      simp [Function.comp_def, Ne.symm hform]

lemma rootsAll_eq (trees : List Tree) :
    rootsAll trees =
      ((occurrencesAll trees).filter fun o => !o.1.contains .function).map (·.2) := by
  match trees with
  | [] => rfl
  | t :: ts =>
    rw [rootsAll, occurrencesAll, filter_append, map_append, roots_eq t, rootsAll_eq ts]

end

lemma roots_sublist (tree : Tree) : tree.roots.Sublist tree.offsets := by
  rw [roots_eq]
  exact filter_sublist.map _

mutual

lemma count_target? {tree target : Tree} (p : Nat) (h : tree.target? = some target) :
    target.offsets.count p ≤ tree.offsets.count p := by
  unfold target? at h
  split at h
  iterate 2
    · obtain ⟨ts, hts, rfl⟩ := Option.map_eq_some_iff.1 h
      rw [offsets_node, offsets_node]
      exact count_targets? p hts
  · split at h <;> cases h
    exact Nat.le_refl _
termination_by sizeOf tree
decreasing_by all_goals
  subst_vars
  simp only [node.sizeOf_spec]
  omega

lemma count_targets? {trailing : Bool} {items targets : List Tree} (p : Nat)
    (h : targets? trailing items = some targets) :
    (targets.flatMap offsets).count p ≤ (items.flatMap offsets).count p := by
  unfold targets? at h
  split at h
  · cases h
    exact Nat.le_refl _
  · next t rest =>
    split at h
    · obtain ⟨t', ht', rfl⟩ := Option.map_eq_some_iff.1 h
      have := count_target? p ht'
      simp only [flatMap_cons, flatMap_nil, offsets_node, count_append,
        append_nil]
      omega
    · cases h
  · next parts rest =>
    have := count_targets? p h
    simp only [flatMap_cons, count_append]
    omega
  iterate 2
    · obtain ⟨ts, hts, rfl⟩ := Option.map_eq_some_iff.1 h
      have := count_targets? p hts
      simp only [flatMap_cons, offsets_node, count_append]
      omega
  iterate 2
    · obtain ⟨value', hvalue, h⟩ := Option.bind_eq_some_iff.1 h
      obtain ⟨ts, hts, h⟩ := Option.bind_eq_some_iff.1 h
      cases h
      have := count_defaulted? p hvalue
      have := count_targets? p hts
      simp only [flatMap_cons, flatMap_nil, offsets_node, count_append, append_nil]
      omega
  · next t rest _ _ _ _ _ _ =>
    obtain ⟨t', ht', h⟩ := Option.bind_eq_some_iff.1 h
    obtain ⟨ts, hts, h⟩ := Option.bind_eq_some_iff.1 h
    cases h
    have := count_defaulted? p ht'
    have := count_targets? p hts
    simp only [flatMap_cons, count_append]
    omega
termination_by sizeOf items
decreasing_by all_goals
  subst_vars
  simp only [node.sizeOf_spec, List.cons.sizeOf_spec]
  omega

lemma count_defaulted? {tree target : Tree} (p : Nat) (h : tree.defaulted? = some target) :
    target.offsets.count p ≤ tree.offsets.count p := by
  unfold defaulted? at h
  split at h
  · cases h
    exact Nat.le_refl _
  iterate 2
    · obtain ⟨ts, hts, rfl⟩ := Option.map_eq_some_iff.1 h
      rw [offsets_node, offsets_node]
      exact count_targets? p hts
  · split at h <;> cases h
    exact Nat.le_refl _
termination_by sizeOf tree
decreasing_by all_goals
  subst_vars
  simp only [node.sizeOf_spec]
  omega

end

end Tree

end SceneView.Script
