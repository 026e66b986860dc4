import Mathlib.Data.List.TakeWhile
import SceneView.Text.Lines

/-!
# Bytes of texts

Offsets and lines are counted in the bytes of a text. A character of ASCII is one byte there, and
that byte stands for nothing else: all bytes of the other characters are larger. The bytes with
which a character goes on are told from those with which one begins.
-/

open List

namespace SceneView.Text

lemma toList_loop (bytes : ByteArray) (i : Nat) (front : List UInt8) :
    ByteArray.toList.loop bytes i front = front.reverse ++ bytes.data.toList.drop i := by
  induction i, front using ByteArray.toList.loop.induct bytes with
  | case1 i front hlt ih =>
    have hi : i < bytes.data.toList.length := hlt
    have hget : bytes.get! i = bytes.data.toList[i] := getElem!_pos bytes.data i hlt
    rw [ByteArray.toList.loop, if_pos hlt, ih, drop_eq_getElem_cons hi, hget]
    simp
  | case2 i front hge =>
    have hi : bytes.data.toList.length ≤ i := by simpa using hge
    rw [ByteArray.toList.loop, if_neg hge, drop_eq_nil_of_le hi, append_nil]

lemma toList_bytes (bytes : ByteArray) : bytes.toList = bytes.data.toList := by
  rw [ByteArray.toList, toList_loop]
  rfl

lemma toUTF8_inj {s s' : String} (h : s.toUTF8.toList = s'.toUTF8.toList) : s = s' := by
  rw [toList_bytes, toList_bytes] at h
  exact String.toByteArray_inj.1 (ByteArray.ext (Array.toList_inj.1 h))

lemma toList_toUTF8 (s : String) :
    s.toUTF8.toList = s.toList.flatMap String.utf8EncodeChar := by
  have hbytes : s.toUTF8 = (s.toList.flatMap String.utf8EncodeChar).toByteArray := by
    have hencode := String.toByteArray_ofList (l := s.toList)
    rw [String.ofList_toList] at hencode
    exact hencode
  rw [toList_bytes, hbytes, toList_data_toByteArray]

lemma utf8EncodeChar_of_lt {c} (h : c.toNat < 128) :
    String.utf8EncodeChar c = [UInt8.ofNat c.toNat] := by
  have hsmall : c.val.toNat ≤ 0x7F := Nat.le_of_lt_succ h
  fun_cases String.utf8EncodeChar c
  · rfl
  · omega
  · omega
  · omega

lemma utf8EncodeChar_of_le {c} (h : 128 ≤ c.toNat) :
    (∀ b ∈ String.utf8EncodeChar c, 128 ≤ b.toNat) ∧
      ∀ b ∈ (String.utf8EncodeChar c).head?, 192 ≤ b.toNat := by
  have hlarge : 128 ≤ c.val.toNat := h
  have hbyte : ∀ {n}, n < 256 → (UInt8.ofNat n).toNat = n := fun hn => UInt8.toNat_ofNat_of_lt' hn
  fun_cases String.utf8EncodeChar c
  · omega
  all_goals
    simp only [mem_cons, not_mem_nil, or_false, forall_eq_or_imp, forall_eq,
      List.head?_cons, Option.mem_some_iff, forall_eq']
  · rw [hbyte (by omega), hbyte (by omega)]
    omega
  · rw [hbyte (by omega), hbyte (by omega), hbyte (by omega)]
    omega
  · rw [hbyte (by omega), hbyte (by omega), hbyte (by omega), hbyte (by omega)]
    omega

lemma count_utf8EncodeChar {a} (ha : a.toNat < 128) (c : Char) :
    (String.utf8EncodeChar c).count (UInt8.ofNat a.toNat) = if c = a then 1 else 0 := by
  have hbyte : ∀ {n}, n < 128 → (UInt8.ofNat n).toNat = n := fun hn =>
    UInt8.toNat_ofNat_of_lt' (Nat.lt_trans hn (by decide))
  by_cases hc : c.toNat < 128
  · have hsame : (UInt8.ofNat c.toNat = UInt8.ofNat a.toNat) ↔ c = a := by
      constructor
      · intro h
        have hval := congrArg UInt8.toNat h
        rw [hbyte hc, hbyte ha] at hval
        exact Char.toNat_inj.1 hval
      · rintro rfl
        rfl
    rw [utf8EncodeChar_of_lt hc, count_singleton]
    simp only [beq_iff_eq, hsame]
  · have hne : c ≠ a := by
      rintro rfl
      exact hc ha
    rw [if_neg hne, count_eq_zero]
    intro hmem
    have hlarge := (utf8EncodeChar_of_le (Nat.le_of_not_lt hc)).1 _ hmem
    rw [hbyte ha] at hlarge
    omega

lemma count_utf8 {a} (ha : a.toNat < 128) (cs : List Char) :
    (cs.flatMap String.utf8EncodeChar).count (UInt8.ofNat a.toNat) = cs.count a := by
  induction cs with
  | nil => rfl
  | cons c cs ih =>
    rw [flatMap_cons, count_append, ih, count_utf8EncodeChar ha, count_cons]
    simp only [beq_iff_eq]
    omega

lemma mem_utf8_iff {a} (ha : a.toNat < 128) (cs : List Char) :
    UInt8.ofNat a.toNat ∈ cs.flatMap String.utf8EncodeChar ↔ a ∈ cs := by
  rw [← count_pos_iff, count_utf8 ha, count_pos_iff]

lemma zero_not_mem_toUTF8 {s : String} (h : '\x00' ∉ s.toList) : 0 ∉ s.toUTF8.toList := by
  rw [toList_toUTF8]
  exact mt (mem_utf8_iff (a := '\x00') (by decide) s.toList).1 h

lemma head_utf8 (cs : List Char) :
    (cs.flatMap String.utf8EncodeChar).head?.any (fun b => 0x80 ≤ b && b < 0xC0) = false := by
  cases cs with
  | nil => rfl
  | cons c cs =>
    obtain ⟨b, bytes, hbytes⟩ := exists_cons_of_ne_nil (@String.utf8EncodeChar_ne_nil c)
    have hb : b.toNat < 128 ∨ 192 ≤ b.toNat := by
      by_cases hc : c.toNat < 128
      · rw [utf8EncodeChar_of_lt hc] at hbytes
        cases hbytes
        rw [UInt8.toNat_ofNat_of_lt' (Nat.lt_trans hc (by decide))]
        exact .inl hc
      · have hlarge := (utf8EncodeChar_of_le (Nat.le_of_not_lt hc)).2
        rw [hbytes] at hlarge
        exact .inr (hlarge b rfl)
    rw [flatMap_cons, hbytes, cons_append, List.head?_cons, Option.any_some,
      ← Bool.not_eq_true, Bool.and_eq_true, decide_eq_true_eq, decide_eq_true_eq,
      UInt8.le_iff_toNat_le, UInt8.lt_iff_toNat_lt]
    rintro ⟨hle, hlt⟩
    have hle : 128 ≤ b.toNat := hle
    have hlt : b.toNat < 192 := hlt
    omega

end SceneView.Text
