import SceneView.Proofs.Markup.Events

/-!
# Lexemes

The parts that markup is made of, each with the characters it is written with: runs of text, tags,
and the comments, instructions, document types and sections of literal data that stand aside from
them. Whatever is read as an event is a lexeme.
-/

open List

namespace SceneView.Markup

lemma foldl_utf8Size (cs : List Char) (n : Nat) :
    cs.foldl (fun n c => n + c.utf8Size) n = n + byteCount cs := by
  induction cs generalizing n with
  | nil => rfl
  | cons c cs ih =>
    rw [byteCount, foldl_cons, foldl_cons, ih, ih (0 + _)]
    omega

@[simp]
lemma byteCount_nil : byteCount [] = 0 :=
  rfl

@[simp]
lemma byteCount_cons (c : Char) (cs : List Char) :
    byteCount (c :: cs) = c.utf8Size + byteCount cs := by
  rw [byteCount, foldl_cons, foldl_utf8Size, Nat.zero_add]

@[simp]
lemma byteCount_append (cs cs' : List Char) :
    byteCount (cs ++ cs') = byteCount cs + byteCount cs' := by
  rw [byteCount, foldl_append, foldl_utf8Size]
  rfl

lemma byteCount_space (s : Space) : byteCount s.chars = s.chars.length := by
  obtain ⟨cs, hcs⟩ := s
  dsimp only
  induction cs with
  | nil => rfl
  | cons c cs ih =>
    have hc : c.utf8Size = 1 := by
      have hspace := hcs c mem_cons_self
      simp only [isSpace, Bool.or_eq_true, beq_iff_eq] at hspace
      rcases hspace with ((rfl | rfl) | rfl) | rfl <;> rfl
    rw [byteCount_cons, hc, ih fun d hd => hcs d (mem_cons_of_mem c hd), length_cons,
      Nat.add_comm]

/-- The inside of a tag: the mark that ends the tag stands there only in quotes, and each quote is
closed. -/
inductive TagBody : List Char → Prop where
  | nil : TagBody []
  | plain {c : Char} {cs : List Char} (hend : c ≠ '>') (hdouble : c ≠ '"') (hsingle : c ≠ '\x27')
      (h : TagBody cs) : TagBody (c :: cs)
  | quoted {quote : Char} {value cs : List Char} (hquote : quote = '"' ∨ quote = '\x27')
      (hvalue : quote ∉ value) (h : TagBody cs) : TagBody (quote :: (value ++ [quote]) ++ cs)

/-- What is left of the inside of a tag after the given quotes. -/
def Quoting.Leaves : Quoting → List Char → Prop
  | .outside, cs => TagBody cs
  | .inside quote, cs => ∃ value cs', cs = value ++ [quote] ++ cs' ∧ quote ∉ value ∧ TagBody cs'

lemma leaves_of_splitTag {quoting : Quoting} {cs content rest : List Char}
    (h : splitTag quoting cs = some (content, rest)) :
    cs = content ++ '>' :: rest ∧ quoting.Leaves content := by
  induction cs generalizing quoting content with
  | nil => cases quoting <;> cases h
  | cons c cs ih =>
    cases quoting with
    | outside =>
      rw [splitTag] at h
      split at h
      · next hend =>
        cases h
        exact ⟨by rw [hend, nil_append], .nil⟩
      · next hend =>
        obtain ⟨⟨content, left⟩, hsplit, hcontent⟩ := Option.map_eq_some_iff.1 h
        cases hcontent
        obtain ⟨rfl, hleaves⟩ := ih hsplit
        refine ⟨rfl, ?_⟩
        split at hleaves
        · next hquote =>
          obtain ⟨value, cs', rfl, hvalue, hbody⟩ := hleaves
          exact .quoted hquote hvalue hbody
        · next hplain =>
          obtain ⟨hdouble, hsingle⟩ := not_or.1 hplain
          exact .plain hend hdouble hsingle hleaves
    | inside quote =>
      rw [splitTag] at h
      obtain ⟨⟨content, left⟩, hsplit, hcontent⟩ := Option.map_eq_some_iff.1 h
      cases hcontent
      obtain ⟨rfl, hleaves⟩ := ih hsplit
      refine ⟨rfl, ?_⟩
      split at hleaves
      · next hquote => exact ⟨[], content, by rw [hquote]; rfl, not_mem_nil, hleaves⟩
      · next hquote =>
        obtain ⟨value, cs', rfl, hvalue, hbody⟩ := hleaves
        refine ⟨c :: value, cs', rfl, ?_, hbody⟩
        exact fun hmem => (mem_cons.1 hmem).elim (fun heq => hquote heq.symm) hvalue

lemma TagBody.of_slash {cs} (h : TagBody (cs ++ ['/'])) : TagBody cs := by
  generalize hcs : cs ++ ['/'] = cs' at h
  induction h generalizing cs with
  | nil => simp at hcs
  | @plain c cs' hend hdouble hsingle hbody ih =>
    cases cs with
    | nil => exact .nil
    | cons d cs =>
      obtain ⟨rfl, htail⟩ := List.cons.inj hcs
      exact .plain hend hdouble hsingle (ih htail)
  | @quoted quote value cs' hquote hvalue hbody ih =>
    rcases eq_nil_or_concat cs' with rfl | ⟨front, last, rfl⟩
    · have hlast := congrArg getLast? hcs
      rw [append_nil, ← cons_append, getLast?_concat, getLast?_concat] at hlast
      cases hlast
      exact absurd hquote (by decide)
    · rw [concat_eq_append, ← append_assoc] at hcs
      obtain ⟨rfl, hlast⟩ := append_inj' hcs rfl
      exact .quoted hquote hvalue (ih (by rw [concat_eq_append, hlast]))

/-- Each opening mark is followed by a closing mark of its own. -/
inductive Balanced : List Char → Prop where
  | nil : Balanced []
  | plain {c : Char} {cs : List Char} (hopen : c ≠ '<') (hclose : c ≠ '>') (h : Balanced cs) :
      Balanced (c :: cs)
  | nested {inner cs : List Char} (hinner : Balanced inner) (h : Balanced cs) :
      Balanced ('<' :: (inner ++ '>' :: cs))

/-- As many closing marks as given are left over, each after balanced ones. -/
def Descends : Nat → List Char → Prop
  | 0, cs => Balanced cs
  | depth + 1, cs => ∃ front back, cs = front ++ '>' :: back ∧ Balanced front ∧ Descends depth back

namespace Descends

variable {depth : Nat} {cs : List Char}

lemma plain {c} (hopen : c ≠ '<') (hclose : c ≠ '>') (h : Descends depth cs) :
    Descends depth (c :: cs) := by
  cases depth with
  | zero => exact .plain hopen hclose h
  | succ depth =>
    obtain ⟨front, back, rfl, hfront, hback⟩ := h
    exact ⟨c :: front, back, rfl, .plain hopen hclose hfront, hback⟩

lemma nested (h : Descends (depth + 1) cs) : Descends depth ('<' :: cs) := by
  obtain ⟨inner, cs', rfl, hinner, hrest⟩ := h
  cases depth with
  | zero => exact .nested hinner hrest
  | succ depth =>
    obtain ⟨front, back, rfl, hfront, hback⟩ := hrest
    exact ⟨'<' :: (inner ++ '>' :: front), back, by simp, .nested hinner hfront, hback⟩

end Descends

lemma descends_of_splitDoctype {depth cs content rest}
    (h : splitDoctype depth cs = some (content, rest)) :
    cs = content ++ '>' :: rest ∧ Descends depth content := by
  induction cs generalizing depth content with
  | nil => cases h
  | cons c cs ih =>
    rw [splitDoctype] at h
    split at h
    · next hend =>
      obtain ⟨rfl, rfl⟩ := hend
      cases h
      exact ⟨rfl, .nil⟩
    · next hend =>
      obtain ⟨⟨content, left⟩, hsplit, hcontent⟩ := Option.map_eq_some_iff.1 h
      cases hcontent
      obtain ⟨rfl, hdescends⟩ := ih hsplit
      refine ⟨rfl, ?_⟩
      split at hdescends
      · next hopen =>
        cases hopen
        exact hdescends.nested
      · next hopen =>
        split at hdescends
        · next hclose =>
          cases hclose
          cases depth with
          | zero => exact absurd ⟨rfl, rfl⟩ hend
          | succ depth => exact ⟨[], content, rfl, .nil, hdescends⟩
        · next hclose => exact hdescends.plain hopen hclose

lemma infix_of_splitAfter {mark before cs content rest}
    (h : splitAfter mark before cs = some (content, rest))
    (hbefore : ¬ [mark, mark, '>'] <:+: before.reverse) :
    before.reverse ++ cs = content ++ '>' :: rest ∧
      ∃ body, content = body ++ [mark, mark] ∧ ¬ [mark, mark, '>'] <:+: body := by
  induction cs generalizing before with
  | nil => cases h
  | cons c cs ih =>
    rw [splitAfter] at h
    split at h
    · next hend =>
      obtain ⟨rfl, hpre⟩ := hend
      obtain ⟨body, rfl⟩ := isPrefixOf_iff_prefix.1 hpre
      cases h
      refine ⟨rfl, body.reverse, by simp, fun hmem => hbefore ?_⟩
      rw [reverse_append]
      exact hmem.trans infix_append_left
    · next hend =>
      have hopen : ¬ [mark, mark, '>'] <:+: (c :: before).reverse := by
        rw [reverse_cons, infix_concat_iff]
        rintro (⟨body, hbody⟩ | hmem)
        · have hsplit : (body ++ [mark, mark]) ++ ['>'] = before.reverse ++ [c] := by
            rw [← hbody, append_assoc]
            rfl
          obtain ⟨hfront, hlast⟩ := append_inj' hsplit rfl
          refine hend ⟨(List.cons.inj hlast).1.symm, ?_⟩
          refine isPrefixOf_iff_prefix.2 ⟨body.reverse, ?_⟩
          rw [← reverse_reverse before, ← hfront]
          simp
        · exact hbefore hmem
      obtain ⟨hsplit, hbody⟩ := ih h hopen
      exact ⟨by rw [← hsplit, reverse_cons, append_assoc, singleton_append], hbody⟩

lemma infix_of_splitInstruction {previous cs content rest}
    (h : splitInstruction previous cs = some (content, rest)) :
    cs = content ++ '>' :: rest ∧ (previous :: content).getLast? = some '?' ∧
      ¬ ['?', '>'] <:+: previous :: content := by
  induction cs generalizing previous content with
  | nil => cases h
  | cons c cs ih =>
    rw [splitInstruction] at h
    split at h
    · next hend =>
      obtain ⟨rfl, rfl⟩ := hend
      cases h
      exact ⟨rfl, rfl, by decide⟩
    · next hend =>
      obtain ⟨⟨content, left⟩, hsplit, hcontent⟩ := Option.map_eq_some_iff.1 h
      cases hcontent
      obtain ⟨rfl, hlast, hinside⟩ := ih hsplit
      refine ⟨rfl, ?_, ?_⟩
      · rw [getLast?_cons_cons]
        exact hlast
      · rw [infix_cons_iff]
        rintro (hpair | hmem)
        · obtain ⟨rfl, hlast⟩ := cons_prefix_cons.1 hpair
          exact hend ⟨(cons_prefix_cons.1 hlast).1.symm, rfl⟩
        · exact hinside hmem

/-- What stands beside tags and text. -/
inductive Aside where
  | comment (body : List Char) (closed : ¬ ['-', '-', '>'] <:+: body)
  /-- A section of literal data. -/
  | data (body : List Char) (closed : ¬ [']', ']', '>'] <:+: body)
  | instruction (body : List Char) (first : '>' ∉ body.head?) (closed : ¬ ['?', '>'] <:+: body)
  /-- A document type, which has a name after its keyword. -/
  | doctype (content : List Char) (keyword : startsWithUncased content "doctype".toList = true)
      (named : ¬ (content.drop 7).all isSpace = true) (closed : Balanced content)

namespace Aside

def chars : Aside → List Char
  | comment body _ => '<' :: '!' :: '-' :: '-' :: (body ++ ['-', '-', '>'])
  | data body _ => '<' :: '!' :: ("[CDATA[".toList ++ (body ++ [']', ']', '>']))
  | instruction body _ _ => '<' :: '?' :: (body ++ ['?', '>'])
  | doctype content _ _ _ => '<' :: '!' :: (content ++ ['>'])

def content : Aside → List Char
  | data body _ => body
  | _ => []

def event : Aside → Event
  | data body _ => .data body
  | _ => .skipped

end Aside

namespace Reader

/-- The reader takes in the characters. -/
structure Advances (r : Reader) (cs : List Char) (r' : Reader) : Prop where
  rest_eq : r.rest = cs ++ r'.rest
  offset_eq : r'.offset = r.offset + byteCount cs

variable {r r' : Reader} {event : Event} {cs : List Char}

lemma Advances.after {content rest marks} (hrest : r.rest = cs ++ rest)
    (hsize : byteCount cs = byteCount content + marks) :
    r.Advances cs (r.after content rest marks) :=
  ⟨hrest, by rw [hsize, ← Nat.add_assoc]; rfl⟩

lemma aside_of_readBang (hrest : r.rest = '<' :: '!' :: cs)
    (h : r.readBang cs = .ok (event, r')) :
    ∃ a : Aside, r.Advances a.chars r' ∧ a.event = event ∧ r'.opened = r.opened := by
  unfold readBang at h
  split at h
  · split at h
    · next tail heq =>
      split at h
      · next content rest hsplit =>
        cases h
        obtain ⟨hbody, body, rfl, hclosed⟩ := infix_of_splitAfter hsplit (by decide)
        rw [reverse_nil, nil_append] at hbody
        refine ⟨.comment body hclosed, .after ?_ ?_, rfl, rfl⟩
        · rw [hrest, heq, hbody]
          simp [Aside.chars]
        · simp +arith [Aside.chars, Char.utf8Size]
      · cases h
    · cases h
  · split at h
    · next hkeyword =>
      split at h
      · next content rest hsplit =>
        cases h
        obtain ⟨tail, htail⟩ := isPrefixOf_iff_prefix.1 hkeyword
        obtain ⟨hbody, body, rfl, hclosed⟩ := infix_of_splitAfter hsplit (by decide)
        have hlength : "[CDATA[".toList.length = 7 := rfl
        rw [reverse_nil, nil_append, ← htail, ← hlength, drop_left] at hbody
        refine ⟨.data body hclosed, .after ?_ ?_, by simp [Aside.event], rfl⟩
        · rw [hrest, ← htail, hbody]
          simp [Aside.chars]
        · simp +arith [Aside.chars, Char.utf8Size]
      · cases h
    · cases h
  · split at h
    · split at h
      · next content rest hsplit =>
        split at h
        · next hkeyword =>
          split at h
          · cases h
          · next hnamed =>
            cases h
            obtain ⟨hcs, hclosed⟩ := descends_of_splitDoctype hsplit
            refine ⟨.doctype content hkeyword hnamed hclosed, .after ?_ ?_, rfl, rfl⟩
            · rw [hrest, hcs]
              simp [Aside.chars]
            · simp +arith [Aside.chars, Char.utf8Size]
        · cases h
      · cases h
    · cases h
  · cases h

lemma aside_of_readInstruction (hrest : r.rest = '<' :: '?' :: cs)
    (h : r.readInstruction cs = .ok (event, r')) :
    ∃ a : Aside, r.Advances a.chars r' ∧ a.event = event ∧ r'.opened = r.opened := by
  unfold readInstruction at h
  split at h
  · cases h
  · next hfirst =>
    split at h
    · next content rest hsplit =>
      cases h
      obtain ⟨rfl, hlast, hinside⟩ := infix_of_splitInstruction hsplit
      rcases eq_nil_or_concat content with rfl | ⟨body, last, rfl⟩
      · cases hlast
      · rw [concat_eq_append] at *
        rw [← cons_append, getLast?_concat] at hlast
        cases hlast
        have hclosed : ¬ ['?', '>'] <:+: body := fun hmem =>
          hinside (infix_cons (hmem.trans infix_append_left))
        have hstart : '>' ∉ body.head? := by
          intro hmem
          obtain ⟨tail, rfl⟩ := List.head?_eq_some_iff.1 hmem
          exact hfirst _ rfl
        refine ⟨.instruction body hstart hclosed, .after ?_ ?_, rfl, rfl⟩
        · rw [hrest]
          simp [Aside.chars]
        · simp +arith [Aside.chars, Char.utf8Size]
    · cases h

end Reader

/-- The inside of a tag that opens an element, told from other markup by how it begins. -/
structure OpenTag where
  chars : List Char
  closed : TagBody chars
  first : ∀ c ∈ chars.head?, c ∉ ['!', '/', '?']

def closingName (content : List Char) : List Char :=
  if content.all isSpace then content else trimEnd content

def OpenTag.opening (tag : OpenTag) : List Char :=
  '<' :: (tag.chars ++ ['>'])

def closingTag (closing : List Char) : List Char :=
  '<' :: '/' :: (closing ++ ['>'])

/-- The characters, before others, are read as an event; names are open before and after it. -/
inductive Lexeme : List Char → List Char → Event → List (List Char) → List (List Char) → Prop where
  /-- A run of text goes on to the next mark. -/
  | text {cs rest : List Char} {opened : List (List Char)} (firm : StartsFirm cs)
      (nonempty : cs ≠ []) (plain : '<' ∉ cs) (ends : ∀ c ∈ rest.head?, c = '<') :
      Lexeme cs rest (.text (trimEnd cs)) opened opened
  | aside {rest : List Char} {opened : List (List Char)} (a : Aside) :
      Lexeme a.chars rest a.event opened opened
  | start {rest : List Char} {opened : List (List Char)} (tag : OpenTag)
      (endsOpen : EndsOpen tag.chars) :
      Lexeme tag.opening rest (.start tag.chars) opened (tagName tag.chars :: opened)
  | empty {rest : List Char} {opened : List (List Char)} (tag : OpenTag)
      (nonempty : tag.chars ≠ []) :
      Lexeme ('<' :: (tag.chars ++ ['/', '>'])) rest (.empty tag.chars) opened opened
  | close {content rest : List Char} {opened : List (List Char)} (closed : TagBody content) :
      Lexeme (closingTag content) rest .close (closingName content :: opened) opened

namespace Lexeme

variable {cs rest : List Char} {event : Event} {opened opened' : List (List Char)}

lemma ne_finish (h : Lexeme cs rest event opened opened') : event ≠ .finish := by
  cases h with
  | aside a => cases a <;> exact nofun
  | _ => exact nofun

lemma ne_nil (h : Lexeme cs rest event opened opened') : cs ≠ [] := by
  cases h with
  | text firm nonempty plain ends => exact nonempty
  | aside a => cases a <;> exact cons_ne_nil _ _
  | _ => exact cons_ne_nil _ _

end Lexeme

namespace Reader

variable {r r' : Reader} {event : Event} {cs : List Char}

lemma lexeme_of_readClose (hrest : r.rest = '<' :: '/' :: cs)
    (h : r.readClose cs = .ok (event, r')) :
    ∃ cs', r.Advances cs' r' ∧ Lexeme cs' r'.rest event r.opened r'.opened := by
  unfold readClose at h
  split at h
  · cases h
  · next content rest hsplit =>
    obtain ⟨rfl, hclosed⟩ := leaves_of_splitTag hsplit
    dsimp only at h
    rw [← closingName] at h
    split at h
    · cases h
    · next expected opened hopened =>
      split at h
      · next hname =>
        subst hname
        cases h
        refine ⟨closingTag content, ⟨?_, ?_⟩, ?_⟩
        · rw [hrest]
          simp [closingTag, after]
        · simp +arith [closingTag, after, Char.utf8Size]
        · rw [hopened]
          exact .close hclosed
      · cases h

lemma lexeme_of_readStart (hrest : r.rest = '<' :: cs)
    (hfirst : ∀ c ∈ cs.head?, c ∉ ['!', '/', '?']) (h : r.readStart cs = .ok (event, r')) :
    ∃ cs', r.Advances cs' r' ∧ Lexeme cs' r'.rest event r.opened r'.opened := by
  unfold readStart at h
  split at h
  · cases h
  · next content rest hsplit =>
    obtain ⟨rfl, hclosed⟩ := leaves_of_splitTag hsplit
    have hstart : ∀ c ∈ content.head?, c ∉ ['!', '/', '?'] := by
      intro c hc
      obtain ⟨tail, rfl⟩ := List.head?_eq_some_iff.1 hc
      exact hfirst c rfl
    dsimp only at h
    split at h
    · next hslash =>
      cases h
      obtain ⟨front, rfl⟩ : ∃ front, content = front ++ ['/'] :=
        getLast?_eq_some_iff.1 hslash
      cases front with
      | nil => exact absurd (hstart '/' rfl) (by decide)
      | cons c front =>
        rw [dropLast_concat]
        refine ⟨_, ⟨?_, ?_⟩, .empty ⟨c :: front, hclosed.of_slash, hstart⟩ (cons_ne_nil _ _)⟩
        · rw [hrest]
          simp [after]
        · simp +arith [after, Char.utf8Size]
    · next hopen =>
      cases h
      refine ⟨_, ⟨?_, ?_⟩, .start ⟨content, hclosed, hstart⟩ hopen⟩
      · rw [hrest]
        simp [OpenTag.opening, after]
      · simp +arith [OpenTag.opening, after, Char.utf8Size]

lemma exists_lexeme (h : r.next = .ok (event, r')) :
    ∃ s : Space, event = .finish ∧ r.rest = s.chars ∨
      ∃ cs, r.rest = s.chars ++ (cs ++ r'.rest) ∧
        r'.offset = r.offset + s.chars.length + byteCount cs ∧
        Lexeme cs r'.rest event r.opened r'.opened := by
  obtain ⟨rest, offset, opened⟩ := r
  obtain ⟨s, cs, rfl, hfirm⟩ := exists_space rest
  refine ⟨s, ?_⟩
  dsimp only
  rw [next_space] at h
  generalize offset + s.chars.length = offset at h ⊢
  cases cs with
  | nil =>
    cases h
    exact .inl ⟨rfl, append_nil _⟩
  | cons c cs =>
    refine .inr ?_
    suffices hlexeme : ∃ cs', Advances ⟨c :: cs, offset, opened⟩ cs' r' ∧
        Lexeme cs' r'.rest event opened r'.opened by
      obtain ⟨cs', ⟨hrest, hoffset⟩, hlexeme⟩ := hlexeme
      exact ⟨cs', congrArg (s.chars ++ ·) hrest, hoffset, hlexeme⟩
    have hspace : isSpace c = false := hfirm c rfl
    by_cases hc : c = '<'
    · subst hc
      cases cs with
      | nil => cases h
      | cons c cs =>
        by_cases hbang : c = '!'
        · subst hbang
          rw [next_bang] at h
          obtain ⟨a, hadvances, rfl, hopened⟩ := aside_of_readBang rfl h
          exact ⟨a.chars, hadvances, hopened ▸ .aside a⟩
        by_cases hquestion : c = '?'
        · subst hquestion
          rw [next_question] at h
          obtain ⟨a, hadvances, rfl, hopened⟩ := aside_of_readInstruction rfl h
          exact ⟨a.chars, hadvances, hopened ▸ .aside a⟩
        by_cases hslash : c = '/'
        · subst hslash
          rw [next_slash] at h
          exact lexeme_of_readClose rfl h
        have hc : c ∉ ['!', '/', '?'] := by simp [hbang, hquestion, hslash]
        rw [next_tag hc] at h
        exact lexeme_of_readStart rfl (by rintro _ ⟨⟩; exact hc) h
    · rw [next_plain hspace hc] at h
      cases h
      have hsplit : (c :: cs).takeWhile (· ≠ '<') ++
          (c :: cs).drop ((c :: cs).takeWhile (· ≠ '<')).length = c :: cs :=
        prefix_iff_eq_append.1 ( takeWhile_prefix _)
      have hdrop : (c :: cs).drop ((c :: cs).takeWhile (· ≠ '<')).length =
          (c :: cs).dropWhile (· ≠ '<') :=
        append_cancel_left (hsplit.trans (takeWhile_append_dropWhile ..).symm)
      have htext : (c :: cs).takeWhile (· ≠ '<') = c :: cs.takeWhile (· ≠ '<') :=
        takeWhile_cons_of_pos (by simpa using hc)
      refine ⟨(c :: cs).takeWhile (· ≠ '<'), ⟨hsplit.symm, rfl⟩, .text ?_ ?_ ?_ ?_⟩
      · rw [htext]
        rintro _ ⟨⟩
        exact hspace
      · rw [htext]
        exact cons_ne_nil _ _
      · intro hmem
        exact absurd (mem_takeWhile_imp hmem) (by decide)
      · intro d hd
        have hhead := List.head?_dropWhile_not (fun c : Char => decide (c ≠ '<')) (c :: cs)
        simp only [after] at hd
        rw [hdrop] at hd
        rw [Option.mem_def.1 hd] at hhead
        simpa using hhead

end Reader

end SceneView.Markup
