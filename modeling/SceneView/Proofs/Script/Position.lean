import SceneView.Proofs.Script.Scan

/-!
# Cursors in a text

A cursor stands at a token of its text: the characters of the token and those after it are an end of
the text. Going on never goes back, and it passes every character of the token.
-/

open List

namespace SceneView.Script

def thisChars : List Char := ['t', 'h', 'i', 's']

lemma Keyword.mem_table_of_ofSpelling? {word k} (h : ofSpelling? word = some k) :
    (word, k) ∈ table := by
  obtain ⟨before, after, htable, -⟩ := lookup_eq_some_iff.1 h
  rw [htable]
  exact mem_append_right _ mem_cons_self

lemma Keyword.eq_this_of_ofSpelling? {word} (h : ofSpelling? word = some .thisKw) :
    word = "this" := by
  have hmem := mem_table_of_ofSpelling? h
  simpa [table] using hmem

namespace Cursor

/-- The cursor stands at a token of the text. -/
structure Lies (text : List Char) (c : Cursor) : Prop where
  total : c.total = text.length
  start_le : c.token.start ≤ text.length
  spells : Spells (text.drop c.token.start) (c.token.kind, c.token.text, c.token.escaped, c.rest)

variable {text : List Char} {c : Cursor}

lemma next_lies (htotal : c.total = text.length) (hrest : c.rest <:+ text) :
    Lies text c.next := by
  have hgap := (skipGap_suffix .plain false c.rest).trans hrest
  have htoken := readToken_spells (skipGap .plain false c.rest).1
  refine ⟨htotal, ?_, ?_⟩
  · show c.total - _ ≤ text.length
    omega
  · show Spells (text.drop (c.total - (skipGap .plain false c.rest).1.length)) _
    rw [htotal, ← suffix_iff_eq_drop.1 hgap]
    exact htoken

lemma ofText_lies (text : List Char) : Lies text (ofText text) :=
  next_lies rfl (suffix_refl _)

namespace Lies

lemma rest_suffix (h : Lies text c) : c.rest <:+ text :=
  h.spells.suffix.trans (drop_suffix _ _)

lemma next (h : Lies text c) : Lies text c.next :=
  next_lies h.total h.rest_suffix

lemma le_next (h : Lies text c) : text.length ≤ c.next.token.start + c.rest.length := by
  have hgap := (skipGap_suffix .plain false c.rest).length_le
  show text.length ≤ c.total - (skipGap .plain false c.rest).1.length + c.rest.length
  rw [h.total]
  omega

lemma start_le_next (h : Lies text c) : c.token.start ≤ c.next.token.start := by
  have hrest : c.rest.length ≤ (text.drop c.token.start).length := h.spells.suffix.length_le
  have hnext := h.le_next
  have hstart := h.start_le
  rw [length_drop] at hrest
  omega

lemma drop_eq_this (h : Lies text c) (hkind : c.token.kind = .keyword .thisKw)
    (hescaped : c.token.escaped = false) : text.drop c.token.start = thisChars ++ c.rest := by
  obtain ⟨hdrop, hspelling⟩ := h.spells.word _ hkind hescaped
  have htext : c.token.text = "this" := Keyword.eq_this_of_ofSpelling? hspelling
  rw [hdrop]
  show c.token.text.toList ++ c.rest = _
  rw [htext]
  rfl

lemma this_le_next (h : Lies text c) (hkind : c.token.kind = .keyword .thisKw)
    (hescaped : c.token.escaped = false) : c.token.start + 4 ≤ c.next.token.start := by
  have hdrop := congrArg List.length (h.drop_eq_this hkind hescaped)
  have hnext := h.le_next
  rw [length_drop, length_append] at hdrop
  have hthis : thisChars.length = 4 := rfl
  omega

lemma finish_iff (h : Lies text c) : c.token.kind = .finish ↔ c.token.start = text.length := by
  rw [h.spells.finish, drop_eq_nil_iff]
  have hstart := h.start_le
  omega

lemma reread (h : Lies text c) {kind left} (hleft : left <:+ text.drop c.token.start)
    (hshorter : left.length < (text.drop c.token.start).length) (hfinish : kind ≠ .finish)
    (hmark : ∀ m, kind = .mark m → text.drop c.token.start = m.chars ++ left)
    (hword : ∀ k, kind ≠ .keyword k) : Lies text (c.reread kind left) where
  total := h.total
  start_le := h.start_le
  spells :=
    { suffix := hleft
      shorter := fun _ => hshorter
      finish := ⟨fun hkind => absurd hkind hfinish, fun hnil => by
        rw [show text.drop c.token.start = [] from hnil] at hshorter
        cases hshorter⟩
      mark := hmark
      word := fun k hkind => absurd hkind (hword k) }

lemma reread_mark (h : Lies text c) {m left} (hmark : text.drop c.token.start = m.chars ++ left) :
    Lies text (c.reread (.mark m) left) := by
  have hchars := length_pos_of_ne_nil m.chars_ne_nil
  refine h.reread ⟨_, hmark.symm⟩ ?_ nofun (fun m' heq => ?_) nofun
  · rw [hmark, length_append]
    omega
  · cases heq
    exact hmark

lemma reread_inert (h : Lies text c) {m m' : Mark} {body : List Char}
    {token : Kind × List Char} (hkind : c.token.kind = .mark m)
    (hbody : m.chars ++ c.rest = m'.chars ++ body) (hinert : token.1.IsInert)
    (hleft : token.2 <:+ body) : Lies text (c.reread token.1 token.2) := by
  have hdrop := (h.spells.mark m hkind).trans hbody
  have hchars := length_pos_of_ne_nil m'.chars_ne_nil
  refine h.reread (hleft.trans ⟨_, hdrop.symm⟩) ?_ hinert.1 (fun k heq => ?_) hinert.2.2
  · have hlength := hleft.length_le
    rw [hdrop, length_append]
    omega
  · exact absurd heq (hinert.2.1 k)

end Lies

end Cursor

end SceneView.Script
