import SceneView.Proofs.Script.Grammar
import SceneView.Proofs.Script.Splice

/-!
# Reading a text

A text is accepted when an expression can be read at its front without a flaw. The cursor behind the
expression tells how much of the text was looked at: every `this` of the expression stands before it.
-/

namespace SceneView.Script

/-- An expression at the front of a text and the cursor behind it. -/
structure Reading (text : List Char) (tree : Tree) (c : Cursor) : Prop where
  run : ((Rules.upTo (8 * text.length + 16)).expression {}).run (Cursor.ofText text) = some (tree, c)
  sound : c.flawed = false
  complete : tree.isComplete = true

lemma parse?_eq_some_iff {text tree} : parse? text = some tree ↔ ∃ c, Reading text tree c := by
  constructor
  · intro h
    obtain ⟨⟨tree', c⟩, hrun, h⟩ := Option.bind_eq_some_iff.1 h
    dsimp only at h
    split at h
    · cases h
    · next haccept =>
      cases h
      simp only [Bool.or_eq_true, Bool.not_eq_true', not_or, Bool.not_eq_true,
        Bool.not_eq_false] at haccept
      exact ⟨c, hrun, haccept.1, haccept.2⟩
  · rintro ⟨c, h⟩
    refine Option.bind_eq_some_iff.2 ⟨(tree, c), h.run, ?_⟩
    simp [h.sound, h.complete]

lemma Stand.of_count {text low high offsets new} (h : Stand text low high new)
    (hcount : ∀ p, offsets.count p ≤ new.count p) : Stand text low high offsets := by
  obtain ⟨l, hperm, hsub⟩ : offsets.Subperm new := List.subperm_ext_iff.2 fun p _ => hcount p
  have hmem : ∀ i ∈ offsets, i ∈ new := fun i hi => hsub.subset (hperm.mem_iff.2 hi)
  exact ⟨(hperm.pairwise_iff fun h => h.symm).1 (h.apart.sublist hsub),
    fun i hi => h.between i (hmem i hi), fun i hi => h.spelled i (hmem i hi)⟩

namespace Reading

variable {text : List Char} {tree : Tree} {c : Cursor}

lemma located (h : Reading text tree c) :
    Run text [] tree.offsets (Cursor.ofText text) c :=
  (Rules.upTo_locate text _).expression _ _ (Cursor.ofText_lies text) _ _ h.run

lemma lies (h : Reading text tree c) : c.Lies text :=
  h.located.lies

lemma stand (h : Reading text tree c) : Stand text 0 c.token.start tree.offsets := by
  obtain ⟨-, new, hnew, hcount⟩ := h.located.sound h.sound
  have hstand : Stand text (Cursor.ofText text).token.start c.token.start tree.offsets :=
    hnew.of_count fun p => by simpa using hcount p
  exact ⟨hstand.apart, fun i hi => ⟨Nat.zero_le _, (hstand.between i hi).2⟩, hstand.spelled⟩

lemma stand_roots (h : Reading text tree c) : Stand text 0 c.token.start tree.roots :=
  h.stand.of_count fun p => (Tree.roots_sublist tree).count_le p

lemma within (h : Reading text tree c) {offsets} (hstand : Stand text 0 c.token.start offsets) :
    ∀ i ∈ offsets, i + 4 ≤ text.length :=
  fun i hi => (hstand.between i hi).2.trans h.lies.start_le

end Reading

/-- The text with the words `this` at the given offsets redirected to the host. -/
def redirectAt (host text : String) (offsets : List Nat) : String :=
  String.ofList (substituteFrom offsets (hostAccess host).toList 0 text.toList)

lemma redirect?_eq_some_iff {host text e} :
    redirect? host text = some e ↔ ∃ tree c, Reading text.toList tree c ∧
      e = ⟨redirectAt host text tree.roots, tree.path?.map (pathText host)⟩ := by
  have hcode : ∀ {tree c}, Reading text.toList tree c →
      Span.spliceAll tree.rootSpans (hostAccess host).toList text.toList =
        substituteFrom tree.roots (hostAccess host).toList 0 text.toList := fun h =>
    Span.spliceAll_eq h.stand_roots.apart (h.within h.stand_roots)
  constructor
  · intro h
    obtain ⟨tree, hparse, h⟩ := Option.bind_eq_some_iff.1 h
    obtain ⟨c, hreading⟩ := parse?_eq_some_iff.1 hparse
    cases h
    refine ⟨tree, c, hreading, ?_⟩
    rw [hcode hreading, redirectAt]
  · rintro ⟨tree, c, hreading, rfl⟩
    refine Option.bind_eq_some_iff.2 ⟨tree, parse?_eq_some_iff.2 ⟨c, hreading⟩, ?_⟩
    rw [hcode hreading, redirectAt]
    rfl

end SceneView.Script
