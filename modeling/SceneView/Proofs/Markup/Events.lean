import SceneView.Proofs.Markup.Tags

/-!
# Events of written documents

What the reader makes of each part that a document is written with: white space, runs of text,
comments, instructions, and opening, closing and empty tags.
-/

open List

namespace SceneView

namespace Markup

variable {cs : List Char} {offset : Nat} {opened : List (List Char)}

lemma trimEnd_append (s : Space) (hcs : ∀ c ∈ cs.getLast?, isSpace c = false) :
    trimEnd (cs ++ s.chars) = cs := by
  have hblank : ∀ c ∈ s.chars.reverse, isSpace c = true :=
    fun c hc => s.blank c (mem_reverse.1 hc)
  have hhead : ∀ c ∈ cs.reverse.head?, isSpace c = false := by
    rwa [List.head?_reverse]
  obtain ⟨_, hdrop⟩ := takeWhile_key hblank hhead
  rw [trimEnd, reverse_append, hdrop, reverse_reverse]

lemma dropWhile_space (s : Space) (cs : List Char) :
    (s.chars ++ cs).dropWhile isSpace = cs.dropWhile isSpace :=
  dropWhile_append_of_pos s.blank

def StartsFirm (cs : List Char) : Prop :=
  ∀ c ∈ cs.head?, isSpace c = false

lemma StartsFirm.dropWhile_eq (h : StartsFirm cs) : cs.dropWhile isSpace = cs :=
  (@takeWhile_key [] cs isSpace (by simp) h).2

lemma exists_space (cs : List Char) :
    ∃ (s : Space) (cs' : List Char), cs = s.chars ++ cs' ∧ StartsFirm cs' := by
  refine ⟨⟨cs.takeWhile isSpace, fun c hc => mem_takeWhile_imp hc⟩, cs.dropWhile isSpace,
    (takeWhile_append_dropWhile ..).symm, ?_⟩
  intro c hc
  have hhead := List.head?_dropWhile_not isSpace cs
  rw [Option.mem_def.1 hc] at hhead
  exact hhead

lemma StartsFirm.append {cs'} (h : StartsFirm cs) (hne : cs ≠ []) : StartsFirm (cs ++ cs') := by
  cases cs with
  | nil => exact absurd rfl hne
  | cons c cs => exact h

lemma startsFirm_mark (cs : List Char) : StartsFirm ('<' :: cs) := by
  rintro c ⟨⟩
  rfl

/-- After white space a tag or another mark of the markup comes. -/
def StartsMark (cs : List Char) : Prop :=
  ∃ s : Space, ∃ rest, cs = s.chars ++ '<' :: rest

namespace Reader

lemma next_space (s : Space) (cs : List Char) :
    next ⟨s.chars ++ cs, offset, opened⟩ = next ⟨cs, offset + s.chars.length, opened⟩ := by
  unfold next
  dsimp only
  rw [takeWhile_append_of_pos s.blank, length_append, drop_append,
    drop_eq_nil_of_le (Nat.le_add_right _ _), nil_append, Nat.add_sub_cancel_left,
    Nat.add_assoc]

lemma next_bang (cs : List Char) :
    next ⟨'<' :: '!' :: cs, offset, opened⟩ = readBang ⟨'<' :: '!' :: cs, offset, opened⟩ cs :=
  rfl

lemma next_question (cs : List Char) :
    next ⟨'<' :: '?' :: cs, offset, opened⟩ =
      readInstruction ⟨'<' :: '?' :: cs, offset, opened⟩ cs :=
  rfl

lemma next_slash (cs : List Char) :
    next ⟨'<' :: '/' :: cs, offset, opened⟩ = readClose ⟨'<' :: '/' :: cs, offset, opened⟩ cs :=
  rfl

variable {c : Char}

lemma next_tag (hc : c ∉ ['!', '/', '?']) (cs : List Char) :
    next ⟨'<' :: c :: cs, offset, opened⟩ =
      readStart ⟨'<' :: c :: cs, offset, opened⟩ (c :: cs) := by
  simp only [mem_cons, not_mem_nil, or_false, not_or] at hc
  simp [next, isSpace, hc.1, hc.2.1, hc.2.2]

lemma next_key (hc : isKeyPart c = true) (cs : List Char) :
    next ⟨'<' :: c :: cs, offset, opened⟩ =
      readStart ⟨'<' :: c :: cs, offset, opened⟩ (c :: cs) := by
  apply next_tag
  intro hmem
  have hpart := all_eq_true.1 (show ['!', '/', '?'].all (!isKeyPart ·) = true by decide) c hmem
  rw [hc] at hpart
  cases hpart

lemma next_plain (hspace : isSpace c = false) (hc : c ≠ '<') (cs : List Char) :
    let content := (c :: cs).takeWhile (· ≠ '<')
    next ⟨c :: cs, offset, opened⟩ = .ok (.text (trimEnd content),
      Reader.after ⟨c :: cs, offset, opened⟩ content ((c :: cs).drop content.length) 0) := by
  have hnone : (c :: cs).takeWhile isSpace = [] := takeWhile_cons_of_neg (by simp [hspace])
  simp only [next, hnone, length_nil, drop_zero, Nat.add_zero]
  split
  · next h => cases h
  iterate 4
    next h =>
      cases h
      exact absurd rfl hc
  · rfl

lemma next_run {cs rest} (hne : cs ≠ []) (hfirst : StartsFirm cs) (hmark : '<' ∉ cs)
    (hrest : ∀ c ∈ rest.head?, c = '<') :
    next ⟨cs ++ rest, offset, opened⟩ =
      .ok (.text (trimEnd cs), ⟨rest, offset + byteCount cs, opened⟩) := by
  have hplain : ∀ c ∈ cs, decide (c ≠ '<') = true := by
    intro c hc
    apply decide_eq_true
    rintro rfl
    exact hmark hc
  have hend : ∀ c ∈ rest.head?, decide (c ≠ '<') = false := by
    intro c hc
    rw [hrest c hc]
    rfl
  obtain ⟨htake, _⟩ := takeWhile_key hplain hend
  cases cs with
  | nil => exact absurd rfl hne
  | cons c cs =>
    have hspace : isSpace c = false := hfirst c rfl
    have hc : c ≠ '<' := fun heq => hmark (heq ▸ mem_cons_self)
    have hnext := @next_plain offset opened c hspace hc (cs ++ rest)
    simp only [← cons_append, htake, drop_left] at hnext
    exact hnext

lemma next_text {cs} (hne : cs ≠ []) (hfirst : StartsFirm cs)
    (hlast : ∀ c ∈ cs.getLast?, isSpace c = false) (hmark : '<' ∉ cs) (s : Space)
    (rest : List Char) :
    ∃ offset', next ⟨cs ++ (s.chars ++ '<' :: rest), offset, opened⟩ =
      .ok (.text cs, ⟨'<' :: rest, offset', opened⟩) := by
  have hplain : '<' ∉ cs ++ s.chars := by
    intro hmem
    rcases mem_append.1 hmem with hmem | hmem
    · exact hmark hmem
    · exact absurd (s.blank _ hmem) (by decide)
  have hnext := @next_run offset opened (cs ++ s.chars) ('<' :: rest) (by simp [hne])
    (hfirst.append hne) hplain (by simp)
  rw [trimEnd_append s hlast, append_assoc] at hnext
  exact ⟨_, hnext⟩

end Reader

lemma splitAfter_marks {mark} (hmark : mark ≠ '>') {body} (before rest : List Char)
    (h : ¬ [mark, mark, '>'] <:+: before.reverse ++ body) :
    splitAfter mark before (body ++ mark :: mark :: '>' :: rest) =
      some (before.reverse ++ body ++ [mark, mark], rest) := by
  induction body generalizing before with
  | nil => simp [splitAfter, hmark]
  | cons c body ih =>
    have hopen : ¬ (c = '>' ∧ [mark, mark].isPrefixOf before = true) := by
      rintro ⟨rfl, hpre⟩
      obtain ⟨t, rfl⟩ := isPrefixOf_iff_prefix.1 hpre
      exact h ⟨t.reverse, body, by simp⟩
    have hmoved : before.reverse ++ c :: body = (c :: before).reverse ++ body := by simp
    rw [hmoved] at h
    rw [cons_append, splitAfter, if_neg hopen, ih (c :: before) h]
    simp

lemma infix_of_append {x y rest} (hx : x ∉ cs) (h : [x, y] <:+: cs ++ rest) : [x, y] <:+: rest := by
  induction cs with
  | nil => exact h
  | cons c cs ih =>
    obtain ⟨hc, hcs⟩ := not_or.1 (mt mem_cons.2 hx)
    rw [cons_append, infix_cons_iff] at h
    rcases h with h | h
    · exact absurd (cons_prefix_cons.1 h).1 hc
    · exact ih hcs h

lemma splitInstruction_question {previous : Char} (rest : List Char)
    (h : ¬ ['?', '>'] <:+: previous :: cs) :
    splitInstruction previous (cs ++ '?' :: '>' :: rest) = some (cs ++ ['?'], rest) := by
  induction cs generalizing previous with
  | nil => simp [splitInstruction]
  | cons c cs ih =>
    have hopen : ¬ (c = '>' ∧ previous = '?') := by
      rintro ⟨rfl, rfl⟩
      exact h ⟨[], cs, rfl⟩
    have htail : ¬ ['?', '>'] <:+: c :: cs := fun hmem => h (infix_cons hmem)
    rw [cons_append, splitInstruction, if_neg hopen, ih htail]
    rfl

namespace Reader

lemma next_comment {body} (h : ¬ ['-', '-'] <:+: body ++ ['-']) (rest : List Char) :
    ∃ offset', next ⟨(Misc.comment body h).chars ++ rest, offset, opened⟩ =
      .ok (.skipped, ⟨rest, offset', opened⟩) := by
  have hclosed : ¬ ['-', '-', '>'] <:+: body := by
    intro hmem
    have hpair : ['-', '-'] <:+: ['-', '-', '>'] := ⟨[], ['>'], rfl⟩
    exact h (hpair.trans (hmem.trans infix_append_left))
  have hsplit := @splitAfter_marks '-' (by decide) body [] rest hclosed
  have hchars : (Misc.comment body h).chars ++ rest =
      '<' :: '!' :: '-' :: '-' :: (body ++ '-' :: '-' :: '>' :: rest) := by
    simp [Misc.chars]
  rw [hchars, next_bang, readBang]
  simp only [hsplit]
  exact ⟨_, rfl⟩

lemma next_instruction {target data} (hdivided : ∀ c ∈ data.head?, isSpace c = true)
    (h : ¬ ['?', '>'] <:+: data) (rest : List Char) :
    ∃ offset', next ⟨(Misc.instruction target data hdivided h).chars ++ rest, offset, opened⟩ =
      .ok (.skipped, ⟨rest, offset', opened⟩) := by
  have hname : ∀ c ∈ ' ' :: target.chars, c ≠ '?' := by
    intro c hc
    rcases mem_cons.1 hc with rfl | hc
    · decide
    · exact ne_of_isKeyPart (Name.isKeyPart_of_mem hc) (by decide)
  have hclosed : ¬ ['?', '>'] <:+: ' ' :: (target.chars ++ data) := by
    intro hmem
    rw [← cons_append] at hmem
    exact h (infix_of_append (fun hc => hname _ hc rfl) hmem)
  have hsplit := splitInstruction_question rest hclosed
  have hchars : (Misc.instruction target data hdivided h).chars ++ rest =
      '<' :: '?' :: (target.chars ++ data ++ '?' :: '>' :: rest) := by
    simp [Misc.chars]
  rw [hchars, next_question, readInstruction]
  · simp only [hsplit]
    exact ⟨_, rfl⟩
  · intro tail heq
    have hfirst : target.first ≠ '>' :=
      ne_of_isKeyPart (Name.isKeyPart_of_mem (n := target) mem_cons_self) (by decide)
    exact hfirst (List.cons.inj heq).1

end Reader

def EndsOpen (cs : List Char) : Prop :=
  '/' ∉ cs.getLast?

lemma EndsOpen.append {cs'} (h : EndsOpen cs) (h' : EndsOpen cs') : EndsOpen (cs ++ cs') := by
  intro hlast
  rw [getLast?_append] at hlast
  cases hcs' : cs'.getLast? with
  | none =>
    rw [hcs'] at hlast
    exact h hlast
  | some c =>
    rw [hcs'] at hlast
    exact h' (hcs' ▸ hlast)

lemma EndsOpen.of_not_mem (h : '/' ∉ cs) : EndsOpen cs :=
  fun hlast => h (mem_of_getLast? hlast)

lemma Space.endsOpen (s : Space) : EndsOpen s.chars :=
  .of_not_mem fun hmem => absurd (s.blank _ hmem) (by decide)

lemma AttributeForm.endsOpen (a : AttributeForm) : EndsOpen a.chars := by
  have hquote : a.quote.char ≠ '/' := by cases a.quote <;> decide
  have hlast : a.chars.getLast? = some a.quote.char := by
    have hsplit : a.chars = (a.gap.chars ++ (a.key.chars ++ (a.before.chars ++
        '=' :: (a.after.chars ++ a.quote.char :: a.value.chars)))) ++ [a.quote.char] := by
      simp [chars, quoted]
    rw [hsplit, getLast?_concat]
  unfold EndsOpen
  rw [hlast, Option.mem_some_iff]
  exact hquote

namespace TagForm

variable (t : TagForm)

lemma endsOpen : EndsOpen t.chars := by
  have hname : EndsOpen t.nameChars := .of_not_mem fun hmem =>
    ne_of_isKeyPart (isKeyPart_of_mem_qualified hmem) (by decide) rfl
  have hattributes : ∀ as : List AttributeForm, EndsOpen (as.flatMap AttributeForm.chars) := by
    intro as
    induction as with
    | nil => exact .of_not_mem (by simp)
    | cons a as ih =>
      rw [flatMap_cons]
      exact a.endsOpen.append ih
  exact hname.append ((hattributes t.attributes).append t.gap.endsOpen)

lemma exists_first : ∃ c cs, t.chars = c :: cs ∧ isKeyPart c = true := by
  cases hname : t.nameChars with
  | nil => exact absurd hname (qualified_ne_nil _ _)
  | cons c cs =>
    refine ⟨c, cs ++ (t.attributes.flatMap AttributeForm.chars ++ t.gap.chars), ?_, ?_⟩
    · rw [chars, hname, cons_append]
    · exact isKeyPart_of_mem_qualified (hname ▸ mem_cons_self : c ∈ t.nameChars)

lemma next_start (rest : List Char) :
    ∃ offset', Reader.next ⟨'<' :: (t.chars ++ '>' :: rest), offset, opened⟩ =
      .ok (.start t.chars, ⟨rest, offset', t.nameChars :: opened⟩) := by
  have hsplit := t.passes.splitTag_eq rest
  have hopen : ¬ t.chars.getLast? = some '/' := t.endsOpen
  have hname := t.tagName_chars
  obtain ⟨c, cs, hchars, hc⟩ := t.exists_first
  rw [hchars] at hsplit hopen hname ⊢
  rw [cons_append] at hsplit ⊢
  rw [Reader.next_key hc, Reader.readStart]
  simp only [hsplit, if_neg hopen, hname]
  exact ⟨_, rfl⟩

lemma next_empty (rest : List Char) :
    ∃ offset', Reader.next ⟨'<' :: (t.chars ++ '/' :: '>' :: rest), offset, opened⟩ =
      .ok (.empty t.chars, ⟨rest, offset', opened⟩) := by
  have hsplit := t.passes.splitTag_slash rest
  obtain ⟨c, cs, hchars, hc⟩ := t.exists_first
  rw [hchars] at hsplit ⊢
  rw [cons_append] at hsplit ⊢
  rw [Reader.next_key hc, Reader.readStart]
  simp only [hsplit, getLast?_concat, dropLast_concat, if_true]
  exact ⟨_, rfl⟩

lemma next_close (gap : Space) (rest : List Char) :
    ∃ offset', Reader.next
        ⟨'<' :: '/' :: (t.nameChars ++ (gap.chars ++ '>' :: rest)), offset, t.nameChars :: opened⟩ =
      .ok (.close, ⟨rest, offset', opened⟩) := by
  have hpart : ∀ c ∈ t.nameChars, isKeyPart c = true := fun c => isKeyPart_of_mem_qualified
  have hpasses : Passes (t.nameChars ++ gap.chars) := (Passes.keyParts hpart).append gap.passes
  have hsplit := hpasses.splitTag_eq rest
  rw [append_assoc] at hsplit
  have hfirm : ¬ (t.nameChars ++ gap.chars).all isSpace = true := by
    intro hall
    obtain ⟨c, hc⟩ := exists_mem_of_ne_nil _ (qualified_ne_nil t.space? t.name)
    have hspace := all_eq_true.1 hall c (mem_append_left _ hc)
    exact Bool.false_ne_true ((isSpace_eq_false (hpart c hc)).symm.trans hspace)
  have htrim : trimEnd (t.nameChars ++ gap.chars) = t.nameChars :=
    trimEnd_append gap fun c hc => isSpace_eq_false (hpart c (mem_of_getLast? hc))
  rw [Reader.next_slash, Reader.readClose]
  simp only [hsplit, if_neg hfirm, htrim, if_true]
  exact ⟨_, rfl⟩

end TagForm

end Markup

end SceneView
