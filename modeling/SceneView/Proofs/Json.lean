import Mathlib.Data.List.Basic
import SceneView.Json.Printer
import SceneView.Json.Reader

/-!
# JSON that reads back

Any text is read back from its quoted form, and a value made of texts and objects is read back from
its compact form, whatever follows it.
-/

open List

namespace SceneView.Json

lemma hexValue?_hexDigit : ∀ n < 16, hexValue? (hexDigit n) = some n := by
  decide

def consUnit (unit : Nat) (r : List Nat × List Char) : List Nat × List Char :=
  (unit :: r.1, r.2)

lemma readUnits_plain {c} (hquote : c ≠ '"') (hslash : c ≠ '\\') (hcontrol : 32 ≤ c.toNat)
    (cs : List Char) : readUnits (c :: cs) = (readUnits cs).map (consUnit c.toNat) := by
  have hguard : (c == '\\' || decide (c.toNat < 32)) = false := by simp [hslash, hcontrol]
  rw [readUnits.eq_5 _ _ hquote (fun _ _ _ _ _ h => absurd h hslash) fun _ _ h => absurd h hslash,
    hguard]
  cases readUnits cs <;> rfl

lemma readUnits_control {n} (h : n < 32) (cs : List Char) :
    readUnits ('\\' :: 'u' :: '0' :: '0' :: hexDigit (n / 16) :: hexDigit (n % 16) :: cs) =
      (readUnits cs).map (consUnit n) := by
  have hunit : hexUnit? '0' '0' (hexDigit (n / 16)) (hexDigit (n % 16)) = some n := by
    have hzero : hexValue? '0' = some 0 := rfl
    have hsum : ((0 * 16 + 0) * 16 + n / 16) * 16 + n % 16 = n := by omega
    rw [hexUnit?, hzero, hexValue?_hexDigit _ (by omega), hexValue?_hexDigit _ (by omega)]
    exact congrArg some hsum
  rw [readUnits, hunit]
  cases readUnits cs <;> rfl

lemma readUnits_short {x c} (h : shortEscape? x = some c) (cs : List Char) :
    readUnits ('\\' :: x :: cs) = (readUnits cs).map (consUnit c.toNat) := by
  have hlong : x ≠ 'u' := by
    rintro rfl
    cases h
  rw [readUnits.eq_4 _ _ fun _ _ _ _ _ hx => absurd hx hlong, h]
  cases readUnits cs <;> rfl

lemma readUnits_escapeChar (c : Char) (cs : List Char) :
    readUnits (escapeChar c ++ cs) = (readUnits cs).map (consUnit c.toNat) := by
  have hshort : ∀ {x e : Char}, (c == e) = true → shortEscape? x = some e →
      readUnits (['\\', x] ++ cs) = (readUnits cs).map (consUnit c.toNat) := by
    intro x e hc hx
    rw [beq_iff_eq.1 hc]
    exact readUnits_short hx cs
  unfold escapeChar
  split_ifs with hquote hslash hb ht hn hf hr hcontrol
  · exact hshort hquote rfl
  · exact hshort hslash rfl
  · exact hshort hb rfl
  · exact hshort ht rfl
  · exact hshort hn rfl
  · exact hshort hf rfl
  · exact hshort hr rfl
  · exact readUnits_control hcontrol cs
  · exact readUnits_plain (by simpa using hquote) (by simpa using hslash) (by omega) cs

lemma readUnits_escaped (cs rest : List Char) :
    readUnits (cs.flatMap escapeChar ++ '"' :: rest) = some (cs.map Char.toNat, rest) := by
  induction cs with
  | nil => rfl
  | cons c cs ih =>
    rw [flatMap_cons, append_assoc, readUnits_escapeChar, ih]
    rfl

lemma not_isHalf (c : Char) : isHighHalf c.toNat = false ∧ isLowHalf c.toNat = false := by
  have hvalid := c.valid
  rw [UInt32.isValidChar, Nat.isValidChar] at hvalid
  unfold isHighHalf isLowHalf Char.toNat
  simp only [Bool.and_eq_false_imp, decide_eq_true_eq, decide_eq_false_iff_not]
  omega

lemma joinUnits_map_toNat (cs : List Char) : joinUnits (cs.map Char.toNat) = some cs := by
  induction cs with
  | nil => rfl
  | cons c cs ih =>
    obtain ⟨hhigh, hlow⟩ := not_isHalf c
    cases cs with
    | nil => simp [joinUnits, hhigh, hlow, Char.ofNat_toNat]
    | cons d cs =>
      rw [map_cons, map_cons, joinUnits, hhigh, hlow]
      rw [map_cons] at ih
      simp [ih, Char.ofNat_toNat]

lemma readString_escaped (s : String) (rest : List Char) :
    readString (s.toList.flatMap escapeChar ++ '"' :: rest) = some (some s, rest) := by
  rw [readString, readUnits_escaped]
  simp [joinUnits_map_toNat]

/-- A value that is read back from its compact form, whatever follows it. -/
def ReadsBack (j : Json) : Prop :=
  ∀ fuel rest, j.compact.toList.length < fuel →
    readValue fuel (j.compact.toList ++ rest) = some (j, rest)

lemma ReadsBack.read? {j} (h : j.ReadsBack) : read? j.compact = some j := by
  have hread := h (j.compact.toList.length + 1) [] (by omega)
  rw [append_nil] at hread
  unfold Json.read?
  dsimp only
  rw [hread]
  rfl

lemma toList_quoted (s : String) :
    (quoted s).toList = '"' :: (s.toList.flatMap escapeChar ++ ['"']) := by
  rw [quoted, quotedChars, String.toList_ofList]

lemma readValue_quote (fuel : Nat) (cs : List Char) :
    readValue (fuel + 1) ('"' :: cs) = do
      let r ← readString cs
      return (string r.1, r.2) :=
  rfl

lemma ReadsBack.ofString (s : String) : (ofString s).ReadsBack := by
  intro fuel rest hfuel
  obtain ⟨fuel, rfl⟩ : ∃ n, fuel = n + 1 := ⟨fuel - 1, by omega⟩
  have hcompact : (Json.ofString s).compact = quoted s := by
    rw [Json.ofString, compact, quotedText]
  rw [hcompact, toList_quoted, cons_append, append_assoc, readValue_quote,
    singleton_append, readString_escaped]
  rfl

def membersText (members : List (String × Json)) : String :=
  ",".intercalate (compactMembers (members.map fun (key, value) => (some key, value)))

lemma toList_compact_ofMembers (members : List (String × Json)) :
    (ofMembers members).compact.toList = '\x7b' :: ((membersText members).toList ++ ['\x7d']) := by
  simp [ofMembers, compact, membersText]

lemma toList_membersText_singleton (key : String) (value : Json) :
    (membersText [(key, value)]).toList =
      (quoted key).toList ++ ':' :: value.compact.toList := by
  simp [membersText, compactMembers, quotedText]

lemma toList_membersText_cons (key : String) (value : Json) (q : String × Json)
    (ps : List (String × Json)) :
    (membersText ((key, value) :: q :: ps)).toList =
      (quoted key).toList ++
        ':' :: (value.compact.toList ++ ',' :: (membersText (q :: ps)).toList) := by
  simp [membersText, compactMembers, quotedText, String.intercalate_cons_cons]

lemma readMembers_quote (fuel : Nat) (cs : List Char) :
    readMembers (fuel + 1) ('"' :: cs) = (readString cs).bind fun r =>
      match skipSpace r.2 with
      | ':' :: rest => (readValue fuel rest).bind fun v =>
        match skipSpace v.2 with
        | ',' :: rest => do
          let m ← readMembers fuel rest
          return ((r.1, v.1) :: m.1, m.2)
        | '\x7d' :: rest => some ([(r.1, v.1)], rest)
        | _ => none
      | _ => none :=
  rfl

lemma readMembers_member (fuel : Nat) (key : String) {value} (h : value.ReadsBack)
    (hfuel : value.compact.toList.length < fuel) (rest : List Char) :
    readMembers (fuel + 1) ((quoted key).toList ++ ':' :: (value.compact.toList ++ rest)) =
      match skipSpace rest with
      | ',' :: rest => do
        let r ← readMembers fuel rest
        return ((some key, value) :: r.1, r.2)
      | '\x7d' :: rest => some ([(some key, value)], rest)
      | _ => none := by
  have hskip : ∀ cs, skipSpace (':' :: cs) = ':' :: cs := fun _ => rfl
  rw [toList_quoted, cons_append, append_assoc, readMembers_quote, singleton_append,
    readString_escaped, Option.bind_some]
  dsimp only
  rw [hskip]
  change (readValue fuel (value.compact.toList ++ rest)).bind _ = _
  rw [h fuel rest hfuel]
  rfl

lemma readMembers_membersText (p : String × Json) (ps : List (String × Json))
    (h : ∀ q ∈ p :: ps, q.2.ReadsBack) (fuel : Nat) (rest : List Char)
    (hfuel : (membersText (p :: ps)).toList.length < fuel) :
    readMembers fuel ((membersText (p :: ps)).toList ++ '\x7d' :: rest) =
      some ((p :: ps).map fun q => (some q.1, q.2), rest) := by
  obtain ⟨fuel, rfl⟩ : ∃ n, fuel = n + 1 := ⟨fuel - 1, by omega⟩
  induction ps generalizing p fuel with
  | nil =>
    rw [toList_membersText_singleton] at hfuel ⊢
    simp only [length_append, length_cons] at hfuel
    rw [append_assoc, cons_append,
      readMembers_member fuel p.1 (h p mem_cons_self) (by omega)]
    rfl
  | cons q ps ih =>
    rw [toList_membersText_cons] at hfuel ⊢
    simp only [length_append, length_cons] at hfuel
    obtain ⟨fuel, rfl⟩ : ∃ n, fuel = n + 1 := ⟨fuel - 1, by omega⟩
    rw [append_assoc, cons_append, append_assoc, cons_append,
      readMembers_member _ p.1 (h p mem_cons_self) (by omega)]
    have hskip : ∀ cs, skipSpace (',' :: cs) = ',' :: cs := fun _ => rfl
    rw [hskip]
    change (readMembers (fuel + 1) _).bind _ = _
    rw [ih q (fun r hr => h r (mem_cons_of_mem _ hr)) fuel (by omega)]
    rfl

lemma ReadsBack.ofMembers {members} (h : ∀ p ∈ members, p.2.ReadsBack) :
    (ofMembers members).ReadsBack := by
  intro fuel rest hfuel
  rw [toList_compact_ofMembers] at hfuel ⊢
  simp only [length_append, length_cons] at hfuel
  obtain ⟨fuel, rfl⟩ : ∃ n, fuel = n + 1 := ⟨fuel - 1, by omega⟩
  rw [cons_append, append_assoc]
  cases members with
  | nil => rfl
  | cons p ps =>
    have hread := readMembers_membersText p ps h fuel rest (by omega)
    have hquote : ∃ cs, (membersText (p :: ps)).toList = '"' :: cs := by
      cases ps with
      | nil => exact ⟨_, by rw [toList_membersText_singleton, toList_quoted, cons_append]⟩
      | cons q ps => exact ⟨_, by rw [toList_membersText_cons, toList_quoted, cons_append]⟩
    obtain ⟨cs, hcs⟩ := hquote
    rw [hcs] at hread ⊢
    change (readMembers fuel _).bind _ = _
    rw [singleton_append, hread]
    rfl

/-- A value whose compact form has no zero character. -/
def IsClear (j : Json) : Prop :=
  '\x00' ∉ j.compact.toList

lemma not_mem_escapeChar (c : Char) : '\x00' ∉ escapeChar c := by
  have hhex : ∀ n < 16, hexDigit n ≠ '\x00' := by decide
  unfold escapeChar
  split_ifs with hquote hslash hb ht hn hf hr hcontrol
  any_goals decide
  · have hhigh := hhex (c.toNat / 16) (by omega)
    have hlow := hhex (c.toNat % 16) (by omega)
    simp [hhigh.symm, hlow.symm]
  · rintro hmem
    obtain rfl := mem_singleton.1 hmem
    exact hcontrol (by decide)

lemma not_mem_quoted (s : String) : '\x00' ∉ (quoted s).toList := by
  simp [toList_quoted, not_mem_escapeChar]

lemma IsClear.ofString (s : String) : (ofString s).IsClear := by
  rw [IsClear, Json.ofString, compact, quotedText]
  exact not_mem_quoted s

lemma IsClear.ofMembers {members} (h : ∀ p ∈ members, p.2.IsClear) :
    (ofMembers members).IsClear := by
  have hmembers : '\x00' ∉ (membersText members).toList := by
    induction members with
    | nil => decide
    | cons p members ih =>
      obtain ⟨key, value⟩ := p
      have hkey := not_mem_quoted key
      have hvalue : '\x00' ∉ value.compact.toList := h _ mem_cons_self
      cases members with
      | nil => simp [toList_membersText_singleton, hkey, hvalue]
      | cons q members =>
        have hrest := ih fun p hp => h p (mem_cons_of_mem _ hp)
        simp [toList_membersText_cons, hkey, hvalue, hrest]
  rw [IsClear, toList_compact_ofMembers]
  simp [hmembers]

end SceneView.Json
