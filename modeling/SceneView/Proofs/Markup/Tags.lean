import Mathlib.Data.List.TakeWhile
import Mathlib.Data.List.Infix
import SceneView.Proofs.Markup.Written

/-!
# Reading written tags

A written tag is read as the element that it opens: its end is found behind all quotes, its
attributes are divided at the white space between them, references are replaced, namespaces are
dropped from names, and declarations are left out.
-/

open List

namespace SceneView.Markup

def isKeyPart (c : Char) : Bool :=
  isNamePart c || c == ':'

lemma isNamePart_of_start {c} (h : isNameStart c = true) : isNamePart c = true := by
  rw [isNamePart, isInRanges, any_append]
  rw [isNameStart, isInRanges] at h
  rw [h, Bool.true_or]

lemma isSpace_eq_false {c} (h : isKeyPart c = true) : isSpace c = false := by
  rw [← Bool.not_eq_true]
  intro hspace
  simp only [isSpace, Bool.or_eq_true, beq_iff_eq] at hspace
  rcases hspace with ((rfl | rfl) | rfl) | rfl <;> exact absurd h (by decide)

lemma ne_of_isKeyPart {c d} (h : isKeyPart c = true) (hd : isKeyPart d = false) : c ≠ d := by
  rintro rfl
  exact Bool.false_ne_true (hd.symm.trans h)

namespace Name

variable {n : Name} {c : Char}

lemma isNamePart_of_mem (hc : c ∈ n.chars) : isNamePart c = true := by
  rcases mem_cons.1 hc with rfl | hc
  · exact isNamePart_of_start n.start
  · exact n.parts c hc

lemma ne_colon (hc : c ∈ n.chars) : c ≠ ':' := by
  rintro rfl
  exact absurd (isNamePart_of_mem hc) (by decide)

lemma isKeyPart_of_mem (hc : c ∈ n.chars) : isKeyPart c = true := by
  rw [isKeyPart, isNamePart_of_mem hc, Bool.true_or]

end Name

lemma isKeyPart_of_mem_qualified {space? n c} (hc : c ∈ qualified space? n) :
    isKeyPart c = true := by
  cases space? with
  | none => exact Name.isKeyPart_of_mem hc
  | some space =>
    rcases mem_append.1 hc with hc | hc
    · exact Name.isKeyPart_of_mem hc
    · rcases mem_cons.1 hc with rfl | hc
      · decide
      · exact Name.isKeyPart_of_mem hc

lemma isKeyPart_of_mem_xmlns : ∀ c ∈ xmlns, isKeyPart c = true :=
  fun c hc => all_eq_true.1 (show xmlns.all isKeyPart = true by decide) c hc

lemma Key.isKeyPart_of_mem {k : Key} {c} (hc : c ∈ k.chars) : isKeyPart c = true := by
  cases k with
  | named space? name _ _ => exact isKeyPart_of_mem_qualified hc
  | declaration space? =>
    cases space? with
    | none => exact isKeyPart_of_mem_xmlns c hc
    | some space =>
      rcases mem_append.1 hc with hc | hc
      · exact isKeyPart_of_mem_xmlns c hc
      · rcases mem_cons.1 hc with rfl | hc
        · decide
        · exact Name.isKeyPart_of_mem hc

lemma qualified_ne_nil (space? : Option Name) (n : Name) : qualified space? n ≠ [] := by
  cases space? <;> simp [qualified, Name.chars]

lemma Key.chars_ne_nil (k : Key) : k.chars ≠ [] := by
  cases k with
  | named space? name _ _ => exact qualified_ne_nil space? name
  | declaration space? =>
    have hxmlns : xmlns ≠ [] := by decide
    cases space? with
    | none => exact hxmlns
    | some space => exact append_ne_nil_of_left_ne_nil hxmlns _

lemma localName_qualified (space? : Option Name) (n : Name) :
    localName (qualified space? n) = n.chars := by
  have hskip : ∀ {m : Name} (rest : List Char),
      (m.chars ++ rest).dropWhile (· ≠ ':') = rest.dropWhile (· ≠ ':') := fun rest =>
    dropWhile_append_of_pos fun c hc => decide_eq_true (Name.ne_colon hc)
  unfold localName qualified
  cases space? with
  | none =>
    have hnone := hskip (m := n) []
    rw [append_nil] at hnone
    rw [hnone]
    rfl
  | some space =>
    dsimp only
    rw [hskip, dropWhile_cons_of_neg (by simp)]

lemma declaresNamespace_named {space? n} (hspace : ∀ space ∈ space?, space.chars ≠ xmlns)
    (hname : n.chars ≠ xmlns) : declaresNamespace (qualified space? n) = false := by
  have hcolon : ':' ∉ xmlns := by decide
  rw [declaresNamespace, Bool.or_eq_false_iff, beq_eq_false_iff_ne, ← Bool.not_eq_true,
    isPrefixOf_iff_prefix]
  cases space? with
  | none =>
    refine ⟨hname, fun hpre => ?_⟩
    have hmem : ':' ∈ n.chars := hpre.subset (by decide)
    exact Name.ne_colon hmem rfl
  | some space =>
    constructor
    · intro heq
      apply hcolon
      rw [xmlns, ← heq]
      simp [qualified]
    · rintro ⟨rest, hrest⟩
      have hsplit := congrArg (takeWhile (· ≠ ':')) hrest
      have htake : ∀ {pre : List Char} (post : List Char), (∀ c ∈ pre, c ≠ ':') →
          (pre ++ ':' :: post).takeWhile (· ≠ ':') = pre := by
        intro pre post hpre
        rw [takeWhile_append_of_pos (by simpa using hpre),
          takeWhile_cons_of_neg (by simp), append_nil]
      have hleft : (("xmlns:".toList) ++ rest).takeWhile (· ≠ ':') = xmlns :=
        @htake xmlns rest fun c hc => by rintro rfl; exact hcolon hc
      rw [hleft, qualified, htake _ fun c hc => Name.ne_colon hc] at hsplit
      exact hspace space rfl hsplit.symm

lemma declaresNamespace_declaration (space? : Option Name) :
    declaresNamespace (Key.declaration space?).chars = true := by
  cases space? with
  | none => rfl
  | some space =>
    have hpre : "xmlns:".toList <+: (Key.declaration (some space)).chars := ⟨space.chars, rfl⟩
    rw [declaresNamespace, isPrefixOf_iff_prefix.2 hpre, Bool.or_true]

lemma resolve_name (start : Nat) (e : Entity) : resolve start e.name = .ok e.char := by
  cases e <;> rfl

lemma Entity.name_ne (e : Entity) : ∀ c ∈ e.name, c ≠ ';' ∧ c ≠ '&' := by
  have hall : (e.name.all fun c => c != ';' && c != '&') = true := by
    cases e <;> rfl
  intro c hc
  simpa using all_eq_true.1 hall c hc

lemma unescapeFrom_name (total start : Nat) {name} (h : ∀ c ∈ name, c ≠ ';' ∧ c ≠ '&')
    (offset : Nat) (found rest : List Char) :
    ∃ offset', unescapeFrom total offset (some (start, found)) (name ++ ';' :: rest) = (do
      let resolved ← resolve (start + 1) (found.reverse ++ name)
      let rest ← unescapeFrom total offset' none rest
      return resolved :: rest) := by
  induction name generalizing offset found with
  | nil =>
    refine ⟨offset + 1, ?_⟩
    rw [nil_append, unescapeFrom, if_pos rfl, append_nil]
  | cons c name ih =>
    obtain ⟨hend, hmark⟩ := h c mem_cons_self
    obtain ⟨offset', hrest⟩ := ih (fun d hd => h d (mem_cons_of_mem _ hd))
      (offset + c.utf8Size) (c :: found)
    refine ⟨offset', ?_⟩
    rw [cons_append, unescapeFrom, if_neg hend, if_neg hmark, hrest, reverse_cons,
      append_assoc, singleton_append]

lemma unescapeFrom_pieces {pieces : List Piece} (h : ∀ c, .plain c ∈ pieces → c ≠ '&')
    (total offset : Nat) :
    unescapeFrom total offset none (pieces.flatMap Piece.chars) = .ok (pieces.map Piece.char) := by
  induction pieces generalizing offset with
  | nil => rfl
  | cons p pieces ih =>
    have htail := ih fun c hc => h c (mem_cons_of_mem _ hc)
    rw [flatMap_cons, map_cons]
    cases p with
    | plain c =>
      rw [Piece.chars, singleton_append, unescapeFrom, if_neg (h c mem_cons_self), htail]
      rfl
    | entity e =>
      obtain ⟨offset', hname⟩ := unescapeFrom_name total offset e.name_ne (offset + 1) []
        (pieces.flatMap Piece.chars)
      rw [Piece.chars, cons_append, append_assoc, singleton_append, unescapeFrom,
        if_pos rfl, hname, reverse_nil, nil_append, resolve_name, htail]
      rfl

lemma Spelling.unescape_chars {marks : List Char} (s : Spelling marks) (hmarks : '&' ∈ marks) :
    unescape s.chars = .ok s.text := by
  refine unescapeFrom_pieces (fun c hc => ?_) _ _
  rintro rfl
  exact s.free _ hc hmarks

lemma Spelling.not_mem_chars {marks} (s : Spelling marks) {c} (hc : c ∈ marks)
    (href : ∀ e, c ∉ (Piece.entity e).chars) : c ∉ s.chars := by
  intro hmem
  obtain ⟨p, hp, hmem⟩ := mem_flatMap.1 hmem
  cases p with
  | plain d =>
    cases mem_singleton.1 hmem
    exact s.free _ hp hc
  | entity e => exact href e hmem

/-- Characters in which a tag does not end: what follows them is read as if it stood alone. -/
def Passes (cs : List Char) : Prop :=
  ∀ rest, splitTag .outside (cs ++ rest) =
    (splitTag .outside rest).map fun (content, left) => (cs ++ content, left)

namespace Passes

variable {cs cs' : List Char}

lemma nil : Passes [] := by
  intro rest
  simp

lemma append (h : Passes cs) (h' : Passes cs') : Passes (cs ++ cs') := by
  intro rest
  rw [append_assoc, h, h', Option.map_map]
  simp [Function.comp_def]

lemma splitTag_eq (h : Passes cs) (rest : List Char) :
    splitTag .outside (cs ++ '>' :: rest) = some (cs, rest) := by
  rw [h, splitTag, if_pos rfl, Option.map_some]
  dsimp only
  rw [append_nil]

lemma of_plain (h : ∀ c ∈ cs, c ≠ '>' ∧ c ≠ '"' ∧ c ≠ '\x27') : Passes cs := by
  induction cs with
  | nil => exact nil
  | cons c cs ih =>
    intro rest
    obtain ⟨hend, hdouble, hsingle⟩ := h c mem_cons_self
    have htail := ih fun d hd => h d (mem_cons_of_mem _ hd)
    rw [cons_append, splitTag, if_neg hend, if_neg (not_or.2 ⟨hdouble, hsingle⟩)]
    dsimp only
    rw [htail, Option.map_map]
    rfl

lemma inside {quote} (h : quote ∉ cs) (rest : List Char) :
    splitTag (.inside quote) (cs ++ quote :: rest) =
      (splitTag .outside rest).map fun (content, left) => (cs ++ quote :: content, left) := by
  induction cs with
  | nil =>
    rw [nil_append, splitTag, if_pos rfl]
    rfl
  | cons c cs ih =>
    obtain ⟨hc, htail⟩ := not_or.1 (mt mem_cons.2 h)
    rw [cons_append, splitTag, if_neg (Ne.symm hc)]
    dsimp only
    rw [ih htail, Option.map_map]
    rfl

lemma quoted {quote} (hquote : quote = '"' ∨ quote = '\x27') (h : quote ∉ cs) :
    Passes (quote :: (cs ++ [quote])) := by
  intro rest
  have hend : quote ≠ '>' := by rcases hquote with rfl | rfl <;> decide
  rw [cons_append, append_assoc, singleton_append, splitTag, if_neg hend,
    if_pos hquote]
  dsimp only
  rw [inside h, Option.map_map]
  simp [Function.comp_def]

lemma splitTag_slash (h : Passes cs) (rest : List Char) :
    splitTag .outside (cs ++ '/' :: '>' :: rest) = some (cs ++ ['/'], rest) := by
  have hslash : Passes (cs ++ ['/']) := h.append (.of_plain (by simp))
  have hsplit := hslash.splitTag_eq rest
  rwa [append_assoc] at hsplit

lemma flatMap {α : Type} {f} {l : List α} (h : ∀ a ∈ l, Passes (f a)) : Passes (l.flatMap f) := by
  induction l with
  | nil => exact nil
  | cons a l ih =>
    rw [flatMap_cons]
    exact (h a mem_cons_self).append (ih fun b hb => h b (mem_cons_of_mem _ hb))

end Passes

lemma Passes.keyParts {cs} (h : ∀ c ∈ cs, isKeyPart c = true) : Passes cs := by
  refine .of_plain fun c hc => ⟨?_, ?_, ?_⟩
  iterate 3 exact ne_of_isKeyPart (h c hc) (by decide)

lemma Space.passes (s : Space) : Passes s.chars := by
  have hne : ∀ {c d}, c ∈ s.chars → isSpace d = false → c ≠ d := by
    rintro c d hc hd rfl
    exact Bool.false_ne_true (hd.symm.trans (s.blank c hc))
  exact .of_plain fun c hc => ⟨hne hc rfl, hne hc rfl, hne hc rfl⟩

namespace AttributeForm

variable (a : AttributeForm)

lemma quote_not_mem : a.quote.char ∉ a.value.chars := by
  refine a.value.not_mem_chars mem_cons_self fun e => ?_
  cases a.quote <;> cases e <;> decide

lemma passes_quoted : Passes a.quoted := by
  apply Passes.quoted
  · cases a.quote <;> decide
  · exact a.quote_not_mem

lemma passes : Passes a.chars := by
  have hequals : Passes ['='] := .of_plain (by simp)
  have hvalue := hequals.append (a.after.passes.append a.passes_quoted)
  exact a.gap.passes.append ((Passes.keyParts fun c => Key.isKeyPart_of_mem).append
    (a.before.passes.append hvalue))

end AttributeForm

namespace TagForm

variable (t : TagForm)

lemma passes : Passes t.chars :=
  (Passes.keyParts fun _ => isKeyPart_of_mem_qualified).append
    ((Passes.flatMap fun a _ => a.passes).append t.gap.passes)

end TagForm

def StartsBlank (cs : List Char) : Prop :=
  ∀ c ∈ cs.head?, isSpace c = true

lemma StartsBlank.append {cs cs'} (h : StartsBlank cs) (h' : StartsBlank cs') :
    StartsBlank (cs ++ cs') := by
  cases cs with
  | nil => exact h'
  | cons c cs => exact h

lemma Space.startsBlank (s : Space) : StartsBlank s.chars :=
  fun c hc => s.blank c (mem_of_mem_head? hc)

lemma AttributeForm.startsBlank (a : AttributeForm) : StartsBlank a.chars := by
  have hgap := a.gap.startsBlank
  have hne := a.divided
  unfold chars
  cases hchars : a.gap.chars with
  | nil => exact absurd hchars hne
  | cons c cs =>
    rw [hchars] at hgap
    exact hgap

lemma startsBlank_attributes (as : List AttributeForm) (gap : Space) :
    StartsBlank (as.flatMap AttributeForm.chars ++ gap.chars) := by
  induction as with
  | nil => exact gap.startsBlank
  | cons a as ih =>
    rw [flatMap_cons, append_assoc]
    exact a.startsBlank.append ih

lemma takeWhile_key {cs rest : List Char} {p : Char → Bool} (hcs : ∀ c ∈ cs, p c = true)
    (hrest : ∀ c ∈ rest.head?, p c = false) :
    (cs ++ rest).takeWhile p = cs ∧ (cs ++ rest).dropWhile p = rest := by
  rw [takeWhile_append_of_pos hcs, dropWhile_append_of_pos hcs]
  cases rest with
  | nil => simp
  | cons c rest =>
    have hc : ¬ p c = true := by simp [hrest c rfl]
    rw [takeWhile_cons_of_neg hc, dropWhile_cons_of_neg hc, append_nil]
    exact ⟨rfl, rfl⟩

lemma TagForm.tagName_chars (t : TagForm) : tagName t.chars = t.nameChars := by
  refine (takeWhile_key (fun c hc => ?_) fun c hc => ?_).1
  · rw [isSpace_eq_false (isKeyPart_of_mem_qualified hc), Bool.not_false]
  · rw [startsBlank_attributes t.attributes t.gap c hc, Bool.not_true]

lemma Remainder.skipSpace_append (s : Space) {cs} (hcs : ∀ c ∈ cs.head?, isSpace c = false)
    (offset : Nat) :
    Remainder.skipSpace ⟨offset, s.chars ++ cs⟩ = ⟨offset + s.chars.length, cs⟩ := by
  obtain ⟨htake, _⟩ := takeWhile_key s.blank hcs
  rw [skipSpace, htake, skip]
  dsimp only
  rw [drop_left]

namespace AttributeForm

variable (a : AttributeForm)

lemma readKey_chars (size offset : Nat) (rest : List Char) :
    ∃ position offset', readKey size ⟨offset, a.chars ++ rest⟩ =
      .ok (some (a.key.chars, position, ⟨offset', a.after.chars ++ (a.quoted ++ rest)⟩)) := by
  cases hkey : a.key.chars with
  | nil => exact absurd hkey a.key.chars_ne_nil
  | cons c cs =>
    have hpart : ∀ d ∈ c :: cs, isKeyPart d = true :=
      fun d hd => Key.isKeyPart_of_mem (hkey ▸ hd)
    have hchars : a.chars ++ rest = a.gap.chars ++ (c :: (cs ++ (a.before.chars ++
        '=' :: (a.after.chars ++ (a.quoted ++ rest))))) := by
      simp [chars, hkey]
    obtain ⟨htake, hdrop⟩ := @takeWhile_key cs
      (a.before.chars ++ '=' :: (a.after.chars ++ (a.quoted ++ rest)))
      (fun c => c != '=' && !isSpace c)
      (fun d hd => by
        have hd := hpart d (mem_cons_of_mem _ hd)
        rw [isSpace_eq_false hd, Bool.not_false, Bool.and_true, bne_iff_ne]
        exact ne_of_isKeyPart hd (by decide))
      (fun d hd => by
        cases hbefore : a.before.chars with
        | nil =>
          rw [hbefore] at hd
          cases hd
          rfl
        | cons b bs =>
          rw [hbefore] at hd
          cases hd
          have hb := a.before.blank d (hbefore ▸ mem_cons_self)
          rw [hb, Bool.not_true, Bool.and_false])
    unfold readKey
    dsimp only
    rw [hchars, Remainder.skipSpace_append a.gap]
    · dsimp only
      rw [htake, hdrop, Remainder.skipSpace_append a.before]
      · exact ⟨_, _, rfl⟩
      · rintro d ⟨⟩
        rfl
    · rintro d ⟨⟩
      exact isSpace_eq_false (hpart c mem_cons_self)

lemma readValue_chars (size offset : Nat) (rest : List Char) :
    ∃ offset', readValue size ⟨offset, a.after.chars ++ (a.quoted ++ rest)⟩ =
      .ok (a.value.chars, ⟨offset', rest⟩) := by
  have hquote : isSpace a.quote.char = false ∧
      (a.quote.char != '"' && a.quote.char != '\x27') = false := by
    cases a.quote <;> decide
  have hquoted : a.quoted ++ rest = a.quote.char :: (a.value.chars ++ a.quote.char :: rest) := by
    simp [quoted]
  obtain ⟨htake, hdrop⟩ := @takeWhile_key a.value.chars (a.quote.char :: rest)
    (fun c => c ≠ a.quote.char)
    (fun c hc => decide_eq_true (ne_of_mem_of_not_mem hc a.quote_not_mem))
    (by rintro c ⟨⟩; simp)
  unfold readValue
  dsimp only
  rw [hquoted, Remainder.skipSpace_append a.after]
  · dsimp only
    rw [hquote.2, htake, hdrop]
    exact ⟨_, rfl⟩
  · rintro c ⟨⟩
    exact hquote.1

lemma read?_eq (position : Nat) :
    RawAttribute.read? ⟨a.key.chars, position, a.value.chars⟩ = .ok a.attribute? := by
  unfold RawAttribute.read? attribute?
  cases hkey : a.key with
  | named space? name hspace hname =>
    have hplain : declaresNamespace (Key.named space? name hspace hname).chars = false :=
      declaresNamespace_named hspace hname
    have hlocal : localName (Key.named space? name hspace hname).chars = name.chars :=
      localName_qualified space? name
    simp only [hplain, hlocal, a.value.unescape_chars (by simp [textMarks])]
    rfl
  | declaration space? =>
    simp only [declaresNamespace_declaration space?]
    rfl

end AttributeForm

lemma readAttributes_chars (size : Nat) (as : List AttributeForm) (gap : Space) {fuel seen}
    (hfuel : as.length < fuel) (hdistinct : (as.map (·.key.chars)).Nodup)
    (hseen : ∀ a ∈ as, seen.lookup a.key.chars = none) (offset : Nat) :
    readAttributes size fuel seen ⟨offset, as.flatMap AttributeForm.chars ++ gap.chars⟩ =
      .ok (as.filterMap AttributeForm.attribute?) := by
  induction as generalizing fuel seen offset with
  | nil =>
    obtain ⟨fuel, rfl⟩ : ∃ n, fuel = n + 1 := ⟨fuel - 1, by simp at hfuel; omega⟩
    have hskip := @Remainder.skipSpace_append gap [] (by simp) offset
    rw [append_nil] at hskip
    have hkey : readKey size ⟨offset, gap.chars⟩ = .ok none := by
      unfold readKey
      dsimp only
      rw [hskip]
      rfl
    rw [flatMap_nil, nil_append, readAttributes, hkey]
    rfl
  | cons a as ih =>
    obtain ⟨fuel, rfl⟩ : ∃ n, fuel = n + 1 := ⟨fuel - 1, by simp at hfuel; omega⟩
    rw [map_cons, nodup_cons] at hdistinct
    obtain ⟨hnew, hdistinct⟩ := hdistinct
    obtain ⟨position, offset₁, hkey⟩ := a.readKey_chars size offset
      (as.flatMap AttributeForm.chars ++ gap.chars)
    obtain ⟨offset₂, hvalue⟩ := a.readValue_chars size offset₁
      (as.flatMap AttributeForm.chars ++ gap.chars)
    have hrest := @ih fuel ((a.key.chars, position) :: seen) (by simp at hfuel; omega) hdistinct
      (fun b hb => by
        have hne : b.key.chars ≠ a.key.chars := fun heq =>
          hnew (heq ▸ mem_map_of_mem (f := (·.key.chars)) hb)
        rw [lookup_cons, beq_false_of_ne hne]
        exact hseen b (mem_cons_of_mem _ hb)) offset₂
    have hfirst := hseen a mem_cons_self
    rw [flatMap_cons, append_assoc, readAttributes, hkey]
    simp only [Except.mapError, bind, Except.bind, hfirst, hvalue, a.read?_eq, hrest]
    cases hattribute : a.attribute? <;> simp [hattribute, pure, Except.pure]

lemma TagForm.readTag_chars (t : TagForm) (line : Nat) :
    readTag line t.chars = .ok { t.element with line } := by
  have hcount : ∀ as : List AttributeForm, as.length ≤ (as.flatMap AttributeForm.chars).length := by
    intro as
    induction as with
    | nil => simp
    | cons a as ih =>
      have hgap : 0 < a.gap.chars.length := length_pos_of_ne_nil a.divided
      simp only [flatMap_cons, length_append, length_cons, AttributeForm.chars]
      omega
  have hrest : t.chars.drop t.nameChars.length =
      t.attributes.flatMap AttributeForm.chars ++ t.gap.chars := drop_left
  have hfuel : t.attributes.length < t.chars.length + 1 := by
    have := hcount t.attributes
    simp only [chars, length_append]
    omega
  have hattributes := @readAttributes_chars (byteCount t.chars) t.attributes t.gap _ [] hfuel
    t.distinct (fun _ _ => rfl) (byteCount t.nameChars)
  unfold readTag
  dsimp only
  rw [t.tagName_chars, hrest, hattributes, nameChars, localName_qualified]
  rfl

end SceneView.Markup
