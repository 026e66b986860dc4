import SceneView.Proofs.Bound

/-!
# Values without braces

A value without braces is a literal. It is never refused: it constructs a value of a known type, or
it is carried over as text, with quotes around it or without.
-/

open List

namespace SceneView

open Text

namespace Text

variable {p : Char → Bool} {c : Char} {cs front back : List Char}

lemma exists_trimBy (p : Char → Bool) (cs : List Char) :
    ∃ before after, cs = before ++ (trimBy p cs ++ after) ∧ (∀ c ∈ before, p c = true) ∧
      ∀ c ∈ after, p c = true := by
  refine ⟨cs.takeWhile p, (cs.dropWhile p).rtakeWhile p, ?_, fun c hc => ?_, fun c hc => ?_⟩
  · rw [trimBy_eq_rdropWhile, rdropWhile_append_rtakeWhile, takeWhile_append_dropWhile]
  · exact mem_takeWhile_imp hc
  · exact mem_rtakeWhile_imp hc

lemma trimBy_firm (h : trimBy isBlank cs ≠ []) :
    BeginsFirm (trimBy isBlank cs) ∧ EndsFirm (trimBy isBlank cs) := by
  constructor
  · obtain ⟨c, rest, htrim⟩ := exists_cons_of_ne_nil h
    obtain ⟨more, hdrop⟩ : trimBy isBlank cs <+: cs.dropWhile isBlank := rdropWhile_prefix _ _
    rw [htrim, cons_append] at hdrop
    have hhead := head_dropWhile_not isBlank (l := cs) (by rw [← hdrop]; nofun)
    simp only [← hdrop, head_cons] at hhead
    exact ⟨c, rest, htrim, hhead⟩
  · have hlast := rdropWhile_last_not isBlank (cs.dropWhile isBlank) h
    exact ⟨_, _, (dropLast_append_getLast h).symm, Bool.eq_false_iff.2 hlast⟩

lemma trimBy_between (hfront : ∃ d ∈ front, p d = false) (hback : ∃ d ∈ back, p d = false) :
    trimBy p (front ++ c :: back) = front.dropWhile p ++ c :: back.rdropWhile p := by
  have hkept : ∀ {ds : List Char}, (∃ d ∈ ds, p d = false) → (ds.dropWhile p).isEmpty = false := by
    rintro ds ⟨d, hd, hpd⟩
    rw [isEmpty_eq_false_iff, Ne, dropWhile_eq_nil_iff]
    intro h
    exact Bool.false_ne_true (hpd.symm.trans (h d hd))
  have hreverse : ∃ d ∈ back.reverse, p d = false := by simpa using hback
  rw [trimBy, dropWhile_append, hkept hfront, if_neg (by simp), reverse_append,
    reverse_cons, append_assoc, dropWhile_append, hkept hreverse, if_neg (by simp)]
  simp [rdropWhile]

end Text

namespace Value

lemma bound?_of_literal {raw} (h : inner? raw = none) (host : String) :
    bound? host raw = .ok none := by
  unfold bound?
  dsimp only
  rw [Option.map_eq_none_iff.1 h]

lemma inner?_of_head {raw : String} (h : (trim raw).toList.head? ≠ some '{') :
    inner? raw = none := by
  rw [inner?, Option.map_eq_none_iff, body?]
  cases hchars : (trim raw).toList with
  | nil => rfl
  | cons c cs =>
    rw [hchars] at h
    split
    · next heq =>
      cases heq
      exact absurd rfl h
    · rfl

def Options.setter (options : Options) (name target : String) : Setter :=
  ⟨⟨options.path?.getD target, options.deferred⟩, name, options.form⟩

def Options.primitive? (options : Options) (value : String) : Option Primitive :=
  if options.skipPrimitives then none else Primitive.ofLiteral? value

lemma Options.accepts_of_primitive? {options : Options} {value p}
    (h : options.primitive? value = some p) : p.accepts value = true := by
  unfold primitive? at h
  split at h
  · cases h
  · exact List.find?_some (p := fun q : Primitive => q.accepts value) h

namespace Binder

variable {b : Binder} {raw : String}

lemma argument_of_literal (h : inner? raw = none) (quoteLiteral : Bool) :
    b.argument raw quoteLiteral =
      .ok (if quoteLiteral then quote (trim raw) else trim raw) := by
  rw [argument, bound?_trim, bound?_of_literal h]
  rfl

lemma typed_of_literal (h : inner? raw = none) (type : String) :
    b.typed type raw =
      match (Primitive.ofTypeName? (trim type)).filter (·.accepts (trim raw)) with
      | some p => .ok (p.construct (trim raw), some p)
      | none =>
        .ok (if trim type = "string" then quote (trim raw) else trim raw,
          none) := by
  rw [typed, bound?_trim, bound?_of_literal h]
  simp only [bind, Except.bind]
  cases (Primitive.ofTypeName? (trim type)).filter (·.accepts (trim raw)) with
  | none => rfl
  | some p => rfl

lemma translate_of_literal (h : inner? raw = none) (name target : String) (options : Options) :
    b.translate name raw target options =
      match options.primitive? (trim raw) with
      | some p =>
        .ok ⟨name, p.construct (trim raw), options.setter name target, none, some p⟩
      | none =>
        .ok ⟨name,
          if options.quoteIfNeeded && !isNumeric (trim raw) then quote (trim raw)
          else trim raw, options.setter name target, none, none⟩ := by
  rw [translate, bound?_trim, bound?_of_literal h]
  rfl

end Binder

end Value

end SceneView
