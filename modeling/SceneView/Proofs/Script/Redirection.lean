import SceneView.Proofs.Script.Recital

/-!
# Phrases redirected to the host

In a phrase every `this` is a root reference. Substitution of the access to the host for all of them
spells the phrase with `this` replaced by that access.
-/

namespace SceneView.Script

open Tree

/-- Substitution for the words at some offsets takes characters that begin at an offset to other
characters. -/
structure Splices (replacement : List Char) (start : Nat) (starts : List Nat)
    (cs cs' : List Char) : Prop where
  within : ∀ s ∈ starts, start ≤ s ∧ s + 4 ≤ start + cs.length
  text : substituteFrom starts replacement start cs = cs'

lemma substitute_congr {starts starts' i} (h : ∀ s, s ≤ i → i < s + 4 → (s ∈ starts ↔ s ∈ starts'))
    (replacement : List Char) (c : Char) :
    substitute starts replacement i c = substitute starts' replacement i c := by
  have hmem : i ∈ starts ↔ i ∈ starts' := h i (Nat.le_refl _) (by omega)
  have hany : (starts.any fun s => s < i && i < s + 4) =
      starts'.any fun s => s < i && i < s + 4 := by
    rw [Bool.eq_iff_iff]
    simp only [List.any_eq_true, Bool.and_eq_true, decide_eq_true_eq]
    constructor
    · rintro ⟨s, hs, hlow, hhigh⟩
      exact ⟨s, (h s (by omega) hhigh).1 hs, hlow, hhigh⟩
    · rintro ⟨s, hs, hlow, hhigh⟩
      exact ⟨s, (h s (by omega) hhigh).2 hs, hlow, hhigh⟩
  simp only [substitute, hmem, hany]

namespace Splices

variable {replacement : List Char} {start : Nat} {starts starts' : List Nat}
  {cs cs' ds ds' : List Char}

lemma plain (cs : List Char) : Splices replacement start [] cs cs :=
  ⟨nofun, substituteFrom_eq_self nofun⟩

lemma word {cs} (h : cs.length = 4) : Splices replacement start [start] cs replacement := by
  refine ⟨fun s hs => ?_, substituteFrom_word List.mem_cons_self h fun s hs hne => ?_⟩
  · obtain rfl := List.mem_singleton.1 hs
    omega
  · exact absurd (List.mem_singleton.1 hs) hne

lemma append (h : Splices replacement start starts cs cs')
    (h' : Splices replacement (start + cs.length) starts' ds ds') :
    Splices replacement start (starts ++ starts') (cs ++ ds) (cs' ++ ds') := by
  constructor
  · intro s hs
    rw [List.length_append]
    obtain hs | hs := List.mem_append.1 hs
    · have := h.within s hs
      omega
    · have := h'.within s hs
      omega
  · -- each piece only sees the offsets inside of it
    have hleft : substituteFrom (starts ++ starts') replacement start cs =
        substituteFrom starts replacement start cs := by
      refine substituteFrom_congr fun i hlow hhigh c => substitute_congr (fun s hle hlt => ?_) _ c
      have hfar : s ∉ starts' := fun hs => by
        have := h'.within s hs
        omega
      simp [hfar]
    have hright : substituteFrom (starts ++ starts') replacement (start + cs.length) ds =
        substituteFrom starts' replacement (start + cs.length) ds := by
      refine substituteFrom_congr fun i hlow hhigh c => substitute_congr (fun s hle hlt => ?_) _ c
      have hfar : s ∉ starts := fun hs => by
        have := h.within s hs
        omega
      simp [hfar]
    rw [substituteFrom_append, hleft, hright, h.text, h'.text]

lemma cons (c : Char) (h : Splices replacement (start + 1) starts cs cs') :
    Splices replacement start starts (c :: cs) (c :: cs') :=
  (plain [c]).append h

end Splices

namespace Phrase

/-- The phrase with `this` redirected to a member of it. -/
def redirect (host : Word) : {l : Layer} → Phrase l → Phrase l
  | _, this => member this host
  | _, name v => name v
  | _, text content => text content
  | _, paren item => paren (item.redirect host)
  | _, member object property => member (object.redirect host) property
  | _, nonNull object => nonNull (object.redirect host)
  | _, index object key => index (object.redirect host) (key.redirect host)
  | _, invoke callee => invoke (callee.redirect host)
  | _, call callee arguments => call (callee.redirect host) (arguments.redirect host)
  | _, construct type arguments => construct type (arguments.redirect host)
  | _, link chain => link (chain.redirect host)
  | _, number value => number value
  | _, prefixed sign operand => prefixed sign (operand.redirect host)
  | _, binary left sign right => binary (left.redirect host) sign (right.redirect host)
  | _, conditional test yes no =>
    conditional (test.redirect host) (yes.redirect host) (no.redirect host)
  | _, arrow body => arrow (body.redirect host)
  | _, arrowOf parameter body => arrowOf parameter (body.redirect host)
  | _, assign object property value => assign (object.redirect host) property (value.redirect host)
  | _, simple operand => simple (operand.redirect host)
  | _, complex operation => complex (operation.redirect host)
  | _, last item => last (item.redirect host)
  | _, more item rest => more (item.redirect host) (rest.redirect host)

lemma roots_sequence (trees : List Tree) : (tree.sequence trees).roots = rootsAll trees := by
  unfold tree.sequence
  split
  · simp [rootsAll]
  · rfl

lemma roots_infixTree (sign : InfixSign) (left right : Tree) :
    (infixTree sign left right).roots = left.roots ++ right.roots := by
  cases sign <;> simp [infixTree, roots, rootsAll]

lemma splices (host : Word) {l} (p : Phrase l) (start : Nat) :
    Splices (thisChars ++ '.' :: host.chars) start (rootsAll (p.trees start)) p.chars
      (p.redirect host).chars := by
  induction p generalizing start with
  | this => exact .word rfl
  | name | text | number => exact .plain _
  | paren inner ih =>
    have h := ((ih (start + 1)).append (.plain [')'])).cons '('
    simpa [trees, tree, roots, rootsAll, chars, redirect] using h
  | member object property ih =>
    have h := (ih start).append (.plain ('.' :: property.chars))
    simpa [trees, tree, roots, rootsAll, chars, redirect] using h
  | nonNull object ih =>
    have h := (ih start).append (.plain ['!'])
    simpa [trees, tree, roots, rootsAll, chars, redirect] using h
  | index object key ih ihkey =>
    have h := (ih start).append (((ihkey _).append (.plain [']'])).cons '[')
    simpa [trees, tree, roots, rootsAll, chars, redirect, roots_sequence] using h
  | invoke callee ih =>
    have h := (ih start).append (.plain ['(', ')'])
    simpa [trees, tree, roots, rootsAll, chars, redirect] using h
  | call callee arguments ih ihargs =>
    have h := (ih start).append (((ihargs _).append (.plain [')'])).cons '(')
    simpa [trees, tree, roots, rootsAll, chars, redirect] using h
  | construct type arguments ihargs =>
    have h := (Splices.plain ['n', 'e', 'w', ' ']).append ((Splices.plain type.chars).append
      (((ihargs (start + 4 + type.chars.length + 1)).append (.plain [')'])).cons '('))
    simpa [trees, tree, roots, rootsAll, chars, redirect] using h
  | link chain ih => exact ih start
  | prefixed sign operand ih =>
    have h := (Splices.plain sign.mark.chars).append
      ((ih (start + sign.mark.chars.length + 1)).cons ' ')
    simpa [trees, tree, roots, rootsAll, chars, redirect] using h
  | binary left sign right ihleft ihright =>
    have h := (ihleft start).append
      (((Splices.plain sign.mark.chars).append ((ihright _).cons ' ')).cons ' ')
    simpa [trees, tree, rootsAll, chars, redirect, roots_infixTree] using h
  | conditional test yes no ihtest ihyes ihno =>
    have h := (ihtest start).append
      (((((ihyes (start + test.chars.length + 3)).append
        ((((ihno (start + test.chars.length + 3 + yes.chars.length + 3)).cons ' ').cons ':').cons
          ' ')).cons ' ').cons '?').cons ' ')
    simpa [trees, tree, roots, rootsAll, chars, redirect] using h
  | arrow body ih =>
    have h := (Splices.plain ['(', ')', ' ', '=', '>', ' ']).append (ih (start + 6))
    simpa [trees, tree, roots, rootsAll, chars, redirect] using h
  | arrowOf parameter body ih =>
    have h := (Splices.plain parameter.chars).append
      ((Splices.plain [' ', '=', '>', ' ']).append (ih (start + parameter.chars.length + 4)))
    simpa [trees, tree, roots, rootsAll, chars, redirect] using h
  | assign object property value ih ihvalue =>
    have h := (ih start).append (((Splices.plain property.chars).append
      ((((ihvalue (start + object.chars.length + 1 + property.chars.length + 3)).cons ' ').cons
        '=').cons ' ')).cons '.')
    simpa [trees, tree, roots, rootsAll, chars, redirect] using h
  | simple _ ih | complex _ ih | last _ ih => exact ih start
  | more item rest ihitem ihrest =>
    have h := (ihitem start).append (((ihrest (start + item.chars.length + 2)).cons ' ').cons ',')
    simpa [trees, tree, rootsAll, chars, redirect] using h

lemma hostAccess_toList (host : Word) :
    (hostAccess host.spelling).toList = thisChars ++ '.' :: host.chars := by
  simp [hostAccess, Word.spelling, thisChars]

lemma redirect?_phrase (host : Word) (p : Phrase .list) {rest} (h : Closes rest) :
    redirect? host.spelling (String.ofList (p.chars ++ rest)) =
      some ⟨String.ofList ((p.redirect host).chars ++ rest),
        (tree.sequence (p.tree 0)).path?.map (pathText host.spelling)⟩ := by
  have hsplices := (p.splices host 0).append (.plain rest)
  rw [List.append_nil] at hsplices
  refine redirect?_eq_some_iff.2
    ⟨tree.sequence (p.tree 0), .scan (p.chars ++ rest).length rest, ?_, ?_⟩
  · rw [String.toList_ofList]
    exact p.reading h
  · rw [redirectAt, roots_sequence, hostAccess_toList, String.toList_ofList]
    exact congrArg (HostExpression.mk · _) (congrArg String.ofList hsplices.text.symm)

end Phrase

end SceneView.Script
