import Mathlib.Algebra.Ring.Nat
import Mathlib.Data.List.Perm.Basic
import SceneView.Script.Host

/-!
# Replacing stretches of a text at once

Splicing goes from the last stretch to the first and puts the replacement over one after the other.
For stretches that are separate the outcome is the text with all of them replaced at once, in
whatever order they are given. The same holds of the bytes of the text: offsets in bytes that lie
between characters stay between characters of every text that the loop passes through.
-/

open List

namespace SceneView.Script.Span

variable {α : Type}

/-- What stands at an offset once stretches are replaced: the replacement, for every stretch that
starts there, and the item that was there, unless a stretch covers it. -/
def place (spans : List Span) (replacement : List α) (i : Nat) (item : Option α) : List α :=
  (List.replicate (spans.countP (·.start == i)) replacement).flatten ++
    if spans.any fun s => s.start ≤ i && i < s.stop then [] else item.toList

/-- The text with all the stretches replaced at once, up to the offset behind its last item. -/
def substituteAll (spans : List Span) (replacement text : List α) : List α :=
  (List.range (text.length + 1)).flatMap fun i => place spans replacement i text[i]?

lemma substituteAll_perm {spans spans'} (h : spans.Perm spans') (replacement text : List α) :
    substituteAll spans replacement text = substituteAll spans' replacement text := by
  simp only [substituteAll, place, h.countP_eq, h.any_eq]

lemma flatMap_range_drop (text : List α) (k : Nat) :
    ((List.range (text.length + 1)).flatMap fun j => if j < k then [] else text[j]?.toList) =
      text.drop k := by
  induction text generalizing k with
  | nil => simp
  | cons a text ih =>
    rw [length_cons, range_succ_eq_map, flatMap_cons, flatMap_map]
    cases k with
    | zero => simpa using ih 0
    | succ k => simpa using ih k

lemma substituteAll_nil (replacement text : List α) : substituteAll [] replacement text = text := by
  have := flatMap_range_drop text 0
  simp only [Nat.not_lt_zero, if_false, drop_zero] at this
  simpa [substituteAll, place] using this

section Last

variable {s : Span} {spans : List Span} (replacement : List α)

lemma place_of_lt {i} (hi : i < s.start) (item : Option α) :
    place (s :: spans) replacement i item = place spans replacement i item := by
  have hne : (s.start == i) = false := by simp; omega
  have hnot : ¬ s.start ≤ i := by omega
  simp [place, hne, hnot]

lemma place_of_le (h : ∀ r ∈ spans, r.start ≤ r.stop ∧ r.stop ≤ s.start) (j : Nat)
    (item : Option α) :
    place (s :: spans) replacement (s.start + j) item =
      (if j = 0 then (List.replicate (spans.countP (·.start == s.start) + 1) replacement).flatten
        else []) ++ if j < s.stop - s.start then [] else item.toList := by
  have hcovered : (spans.any fun r => r.start ≤ s.start + j && s.start + j < r.stop) = false := by
    simp only [any_eq_false, Bool.and_eq_true, decide_eq_true_eq, not_and]
    intro r hr _
    have := h r hr
    omega
  have hstart : j ≠ 0 → (spans.countP fun r => r.start == s.start + j) = 0 := by
    intro hj
    simp only [countP_eq_zero, beq_iff_eq]
    intro r hr
    have := h r hr
    omega
  have hcover : (s.start ≤ s.start + j && decide (s.start + j < s.stop)) =
      decide (j < s.stop - s.start) := by
    simp only [Nat.le_add_right, decide_true, Bool.true_and, decide_eq_decide]
    omega
  simp only [place, countP_cons, any_cons, hcover, hcovered, Bool.or_false,
    decide_eq_true_eq]
  by_cases hj : j = 0
  · simp [hj]
  · simp [hj, hstart hj]

lemma substituteAll_cons {text} (hs : s.start ≤ s.stop) (hlength : s.stop ≤ text.length)
    (h : ∀ r ∈ spans, r.start ≤ r.stop ∧ r.stop ≤ s.start) :
    substituteAll (s :: spans) replacement text =
      substituteAll spans replacement (text.take s.start) ++ (replacement ++ text.drop s.stop) := by
  obtain ⟨front, back, rfl, hfront⟩ : ∃ front back, text = front ++ back ∧ front.length = s.start :=
    ⟨text.take s.start, text.drop s.start, (take_append_drop _ _).symm, by simp; omega⟩
  have hlow : ∀ i ∈ List.range s.start, place (s :: spans) replacement i (front ++ back)[i]? =
      place spans replacement i front[i]? := by
    intro i hi
    have hi := mem_range.1 hi
    rw [place_of_lt replacement hi, getElem?_append_left (by omega)]
  have hhigh : ∀ j, place (s :: spans) replacement (s.start + j) (front ++ back)[s.start + j]? =
      (if j = 0 then (List.replicate (spans.countP (·.start == s.start) + 1) replacement).flatten
        else []) ++ if j < s.stop - s.start then [] else back[j]?.toList := by
    intro j
    rw [place_of_le replacement h, getElem?_append_right (by omega), hfront,
      Nat.add_sub_cancel_left]
  have hback : ((List.range (back.length + 1)).flatMap fun j =>
      place (s :: spans) replacement (s.start + j) (front ++ back)[s.start + j]?) =
      (List.replicate (spans.countP (·.start == s.start) + 1) replacement).flatten ++
        back.drop (s.stop - s.start) := by
    rw [← flatMap_range_drop back, range_succ_eq_map, flatMap_cons, flatMap_cons,
      flatMap_map, flatMap_map, hhigh 0, if_pos rfl, append_assoc]
    simp only [hhigh, Nat.succ_ne_zero, if_false, nil_append]
  have hend : place spans replacement s.start front[s.start]? =
      (List.replicate (spans.countP (·.start == s.start)) replacement).flatten := by
    rw [getElem?_eq_none (by omega)]
    simp [place]
  have hdrop : (front ++ back).drop s.stop = back.drop (s.stop - s.start) := by
    rw [drop_append, hfront, drop_eq_nil_of_le (by omega), nil_append]
  calc substituteAll (s :: spans) replacement (front ++ back)
      = ((List.range s.start).flatMap fun i => place spans replacement i front[i]?) ++
          ((List.replicate (spans.countP (·.start == s.start) + 1) replacement).flatten ++
            back.drop (s.stop - s.start)) := by
        rw [substituteAll, length_append, hfront, Nat.add_assoc, range_add,
          flatMap_append, flatMap_map, hback, flatMap_congr hlow]
    _ = substituteAll spans replacement front ++ (replacement ++ back.drop (s.stop - s.start)) := by
        rw [substituteAll, hfront, range_succ, flatMap_append, flatMap_singleton,
          hend, replicate_succ', flatten_append]
        simp only [flatten_singleton, append_assoc]
    _ = _ := by rw [take_left' hfront, hdrop]

end Last

/-- The stretch is one of the text. -/
def Within (n : Nat) (s : Span) : Prop :=
  s.start ≤ s.stop ∧ s.stop ≤ n

instance (n : Nat) (s : Span) : Decidable (s.Within n) :=
  inferInstanceAs (Decidable (_ ∧ _))

lemma Within.start_le {n} {s : Span} (h : s.Within n) : s.start ≤ n :=
  Nat.le_trans h.1 h.2

/-- The stretches have no offset in common. Two that start at the same place are then both empty, or
one of them would stand at the start of the other. -/
def Separate (a b : Span) : Prop :=
  (a.stop ≤ b.start ∨ b.stop ≤ a.start) ∧ (a.start = b.start → a = b)

instance (a b : Span) : Decidable (a.Separate b) :=
  inferInstanceAs (Decidable (_ ∧ _))

lemma Separate.symm {a b : Span} (h : a.Separate b) : b.Separate a :=
  ⟨h.1.symm, fun e => (h.2 e.symm).symm⟩

lemma separate_iff {a b : Span} (ha : a.start < a.stop) (hb : b.start < b.stop) :
    a.Separate b ↔ ∀ i, ¬ ((a.start ≤ i ∧ i < a.stop) ∧ b.start ≤ i ∧ i < b.stop) := by
  constructor
  · rintro ⟨h, -⟩ i
    omega
  · intro h
    have := h a.start
    have := h b.start
    exact ⟨by omega, fun e => by omega⟩

/-- The stretches follow each other from the last to the first. -/
def Descending (spans : List Span) : Prop :=
  spans.Pairwise fun later earlier => earlier.stop ≤ later.start

lemma insertByStart_perm (span : Span) (spans : List Span) :
    (insertByStart span spans).Perm (span :: spans) := by
  induction spans with
  | nil => exact .refl _
  | cons other rest ih =>
    rw [insertByStart]
    split
    · exact .refl _
    · exact (ih.cons other).trans (.swap span other rest)

lemma fromLast_perm (spans : List Span) : (fromLast spans).Perm spans := by
  induction spans with
  | nil => exact .refl _
  | cons span spans ih => exact (insertByStart_perm span _).trans (ih.cons span)

lemma insertByStart_sorted {span spans}
    (h : spans.Pairwise fun later earlier => earlier.start ≤ later.start) :
    (insertByStart span spans).Pairwise fun later earlier => earlier.start ≤ later.start := by
  induction spans with
  | nil => exact pairwise_singleton _ _
  | cons other rest ih =>
    obtain ⟨hother, hrest⟩ := pairwise_cons.1 h
    rw [insertByStart]
    split
    · next hle =>
      refine pairwise_cons.2 ⟨fun s hs => ?_, h⟩
      obtain rfl | hs := mem_cons.1 hs
      · exact hle
      · exact Nat.le_trans (hother s hs) hle
    · next hlt =>
      refine pairwise_cons.2 ⟨fun s hs => ?_, ih hrest⟩
      obtain rfl | hs := mem_cons.1 ((insertByStart_perm span rest).mem_iff.1 hs)
      · omega
      · exact hother s hs

lemma fromLast_sorted (spans : List Span) :
    (fromLast spans).Pairwise fun later earlier => earlier.start ≤ later.start := by
  induction spans with
  | nil => exact .nil
  | cons span spans ih => exact insertByStart_sorted ih

lemma fromLast_descending {spans : List Span} {n} (hwithin : ∀ s ∈ spans, s.Within n)
    (hseparate : spans.Pairwise Separate) : Descending (fromLast spans) := by
  have hperm := fromLast_perm spans
  have hseparate' := (hperm.pairwise_iff fun h => h.symm).2 hseparate
  refine (List.Pairwise.and_mem.1 (hseparate'.and (fromLast_sorted spans))).imp
    fun {later earlier} ⟨hlater, hearlier, ⟨hends, hsame⟩, hstarts⟩ => ?_
  have hlater := hwithin later (hperm.mem_iff.1 hlater)
  obtain hle | hle := hends
  · -- then both start at one place
    have := hsame (by have := hlater.1; omega)
    subst this
    exact hle
  · exact hle

variable {spans : List Span} {replacement text : List Char}

lemma replace_append {s : Span} {a} (h : s.Within a.length) (b : List Char) :
    s.replace replacement (a ++ b) = s.replace replacement a ++ b := by
  have := h.1
  have := h.2
  simp only [replace]
  rw [take_append_of_le_length (by omega), drop_append_of_le_length h.2]
  simp only [append_assoc]

lemma Within.replace {r s : Span} (hr : r.start ≤ r.stop) (hrs : r.stop ≤ s.start)
    (hs : s.Within text.length) : r.Within (s.replace replacement text).length := by
  have := hs.1
  have := hs.2
  refine ⟨hr, ?_⟩
  simp only [Span.replace, length_append, length_take, length_drop]
  omega

lemma within_take {s : Span} (hs : s.Within text.length)
    (hspans : ∀ r ∈ spans, r.Within text.length) (hlast : ∀ r ∈ spans, r.stop ≤ s.start) :
    ∀ r ∈ spans, r.Within (text.take s.start).length := by
  intro r hr
  have := hlast r hr
  have := hs.start_le
  exact ⟨(hspans r hr).1, by simp; omega⟩

lemma foldl_replace_append (hdesc : Descending spans) {a : List Char}
    (hwithin : ∀ s ∈ spans, s.Within a.length) (b : List Char) :
    spans.foldl (fun text span => span.replace replacement text) (a ++ b) =
      spans.foldl (fun text span => span.replace replacement text) a ++ b := by
  induction spans generalizing a with
  | nil => rfl
  | cons s spans ih =>
    obtain ⟨hs, hspans⟩ := forall_mem_cons.1 hwithin
    obtain ⟨hlast, hdesc⟩ := pairwise_cons.1 hdesc
    rw [foldl_cons, foldl_cons, replace_append hs]
    exact ih hdesc fun r hr => .replace (hspans r hr).1 (hlast r hr) hs

lemma foldl_replace_eq (hdesc : Descending spans) (hwithin : ∀ s ∈ spans, s.Within text.length) :
    spans.foldl (fun text span => span.replace replacement text) text =
      substituteAll spans replacement text := by
  induction spans generalizing text with
  | nil => exact (substituteAll_nil replacement text).symm
  | cons s spans ih =>
    obtain ⟨hs, hspans⟩ := forall_mem_cons.1 hwithin
    obtain ⟨hlast, hdesc⟩ := pairwise_cons.1 hdesc
    have hfront := within_take hs hspans hlast
    rw [substituteAll_cons replacement hs.1 hs.2 fun r hr => ⟨(hspans r hr).1, hlast r hr⟩,
      ← ih hdesc hfront, ← foldl_replace_append hdesc hfront, foldl_cons, Span.replace,
      append_assoc]

lemma length_substituteAll (replacement : List Char) (hdesc : Descending spans)
    (hwithin : ∀ s ∈ spans, s.Within text.length) :
    (substituteAll spans replacement text).length + (spans.map fun s => s.stop - s.start).sum =
      text.length + spans.length * replacement.length := by
  induction spans generalizing text with
  | nil =>
    rw [substituteAll_nil, length_nil, Nat.zero_mul]
    rfl
  | cons s spans ih =>
    obtain ⟨hs, hspans⟩ := forall_mem_cons.1 hwithin
    obtain ⟨hlast, hdesc⟩ := pairwise_cons.1 hdesc
    have hrest := ih hdesc (within_take hs hspans hlast)
    have := hs.1
    have := hs.2
    rw [substituteAll_cons replacement hs.1 hs.2 fun r hr => ⟨(hspans r hr).1, hlast r hr⟩]
    simp only [length_append, length_drop, length_take, map_cons,
      sum_cons, length_cons, Nat.add_one_mul] at hrest ⊢
    omega

lemma spliceAll_eq_substituteAll (replacement : List Char)
    (hwithin : ∀ s ∈ spans, s.Within text.length) (hseparate : spans.Pairwise Separate) :
    spliceAll spans replacement text = substituteAll spans replacement text := by
  have hperm := fromLast_perm spans
  rw [spliceAll, foldl_replace_eq (fromLast_descending hwithin hseparate)
    fun s hs => hwithin s (hperm.mem_iff.1 hs)]
  exact substituteAll_perm hperm replacement text

def bytes (text : List Char) : List UInt8 :=
  text.flatMap String.utf8EncodeChar

def inBytes (text : List Char) (s : Span) : Span :=
  ⟨(bytes (text.take s.start)).length, (bytes (text.take s.stop)).length⟩

/-- Splits a text behind a number of bytes, if it has as many and they end with a character. -/
def splitBytes? : Nat → List Char → Option (List Char × List Char)
  | 0, text => some ([], text)
  | _ + 1, [] => none
  | n + 1, c :: text =>
    if c.utf8Size ≤ n + 1 then
      (splitBytes? (n + 1 - c.utf8Size) text).map fun (front, back) => (c :: front, back)
    else none

/-- Puts a text in place of the stretch between two offsets in bytes, if there is one between
characters. -/
def replaceBytes? (span : Span) (replacement text : List Char) : Option (List Char) :=
  if span.start ≤ span.stop then do
    let (front, _) ← splitBytes? span.start text
    let (_, back) ← splitBytes? span.stop text
    return front ++ replacement ++ back
  else none

@[simp]
lemma bytes_append (a b : List Char) : bytes (a ++ b) = bytes a ++ bytes b :=
  flatMap_append

@[simp]
lemma length_bytes_cons (c : Char) (text : List Char) :
    (bytes (c :: text)).length = c.utf8Size + (bytes text).length := by
  simp [bytes]

lemma splitBytes?_append (front back : List Char) :
    splitBytes? (bytes front).length (front ++ back) = some (front, back) := by
  induction front with
  | nil => simp [bytes, splitBytes?]
  | cons c front ih =>
    have hpos := c.utf8Size_pos
    obtain ⟨n, hn⟩ : ∃ n, (bytes (c :: front)).length = n + 1 :=
      ⟨(bytes (c :: front)).length - 1, by simp; omega⟩
    have hlength := length_bytes_cons c front
    rw [hn, cons_append, splitBytes?, if_pos (by omega),
      show n + 1 - c.utf8Size = (bytes front).length by omega, ih]
    rfl

lemma splitBytes?_take (text : List Char) (i : Nat) :
    splitBytes? (bytes (text.take i)).length text = some (text.take i, text.drop i) := by
  have := splitBytes?_append (text.take i) (text.drop i)
  rwa [take_append_drop] at this

lemma take_bytes (text : List Char) (i : Nat) :
    (bytes text).take (bytes (text.take i)).length = bytes (text.take i) := by
  conv_lhs => rw [← take_append_drop i text, bytes_append]
  rw [take_append_drop, take_left]

lemma drop_bytes (text : List Char) (i : Nat) :
    (bytes text).drop (bytes (text.take i)).length = bytes (text.drop i) := by
  conv_lhs => rw [← take_append_drop i text, bytes_append]
  rw [take_append_drop, drop_left]

lemma length_bytes_take_lt {i j} (hij : i < j) (hj : j ≤ text.length) :
    (bytes (text.take i)).length < (bytes (text.take j)).length := by
  have hsplit : text.take j = text.take i ++ (text.take j).drop i := by
    conv_lhs =>
      rw [← take_append_drop i (text.take j), take_take,
        Nat.min_eq_left (Nat.le_of_lt hij)]
  obtain ⟨c, rest, hrest⟩ := exists_cons_of_length_pos
    (l := (text.take j).drop i) (by simp; omega)
  have hpos := c.utf8Size_pos
  rw [hsplit, hrest, bytes_append, length_append, length_bytes_cons]
  omega

lemma length_bytes_take_le_iff {i j} (hi : i ≤ text.length) (hj : j ≤ text.length) :
    (bytes (text.take i)).length ≤ (bytes (text.take j)).length ↔ i ≤ j := by
  constructor
  · intro h
    by_contra hji
    have := length_bytes_take_lt (by omega : j < i) hi
    omega
  · intro h
    obtain rfl | h := Nat.eq_or_lt_of_le h
    · exact Nat.le_refl _
    · exact Nat.le_of_lt (length_bytes_take_lt h hj)

lemma Within.inBytes {s : Span} (hs : s.Within text.length) :
    (s.inBytes text).Within (bytes text).length := by
  refine ⟨(length_bytes_take_le_iff hs.start_le hs.2).2 hs.1, ?_⟩
  have := (length_bytes_take_le_iff hs.2 (Nat.le_refl _)).2 hs.2
  rwa [take_length] at this

lemma inBytes_congr {text' k} (h : text.take k = text'.take k) {r : Span} (hr : r.start ≤ r.stop)
    (hk : r.stop ≤ k) : r.inBytes text = r.inBytes text' := by
  have htake : ∀ i ≤ k, text.take i = text'.take i := by
    intro i hi
    have := congrArg (List.take i) h
    rwa [take_take, take_take, Nat.min_eq_left hi] at this
  rw [inBytes, inBytes, htake _ (Nat.le_trans hr hk), htake _ hk]

lemma replaceBytes?_inBytes {s : Span} (hs : s.Within text.length) :
    (s.inBytes text).replaceBytes? replacement text = some (s.replace replacement text) := by
  rw [replaceBytes?, if_pos hs.inBytes.1]
  simp only [inBytes, splitBytes?_take]
  rfl

lemma foldlM_replaceBytes? (hdesc : Descending spans)
    (hwithin : ∀ s ∈ spans, s.Within text.length) :
    (spans.map (inBytes text)).foldlM (fun text span => span.replaceBytes? replacement text) text =
      some (spans.foldl (fun text span => span.replace replacement text) text) := by
  induction spans generalizing text with
  | nil => rfl
  | cons s spans ih =>
    obtain ⟨hs, hspans⟩ := forall_mem_cons.1 hwithin
    obtain ⟨hlast, hdesc⟩ := pairwise_cons.1 hdesc
    have hfront : text.take s.start = (s.replace replacement text).take s.start := by
      have := hs.1
      have := hs.2
      rw [replace, append_assoc, take_left' (by simp; omega)]
    have hsame : spans.map (inBytes text) = spans.map (inBytes (s.replace replacement text)) :=
      map_congr_left fun r hr => inBytes_congr hfront (hspans r hr).1 (hlast r hr)
    rw [map_cons, foldlM_cons, replaceBytes?_inBytes hs, hsame]
    exact ih hdesc fun r hr => .replace (hspans r hr).1 (hlast r hr) hs

lemma insertByStart_map {s : Span} (hs : s.Within text.length)
    (hwithin : ∀ r ∈ spans, r.Within text.length) :
    insertByStart (s.inBytes text) (spans.map (inBytes text)) =
      (insertByStart s spans).map (inBytes text) := by
  induction spans with
  | nil => rfl
  | cons r spans ih =>
    obtain ⟨hr, hspans⟩ := forall_mem_cons.1 hwithin
    have hiff : (r.inBytes text).start ≤ (s.inBytes text).start ↔ r.start ≤ s.start :=
      length_bytes_take_le_iff hr.start_le hs.start_le
    simp only [map_cons, insertByStart, hiff, ih hspans]
    split <;> rfl

lemma fromLast_map (hwithin : ∀ s ∈ spans, s.Within text.length) :
    fromLast (spans.map (inBytes text)) = (fromLast spans).map (inBytes text) := by
  induction spans with
  | nil => rfl
  | cons s spans ih =>
    obtain ⟨hs, hspans⟩ := forall_mem_cons.1 hwithin
    have hrest : ∀ r ∈ fromLast spans, r.Within text.length :=
      fun r hr => hspans r ((fromLast_perm spans).mem_iff.1 hr)
    calc fromLast ((s :: spans).map (inBytes text))
        = insertByStart (s.inBytes text) ((fromLast spans).map (inBytes text)) :=
          congrArg (insertByStart _) (ih hspans)
      _ = (fromLast (s :: spans)).map (inBytes text) := insertByStart_map hs hrest

lemma bytes_substituteAll (hdesc : Descending spans) (hwithin : ∀ s ∈ spans, s.Within text.length) :
    bytes (substituteAll spans replacement text) =
      substituteAll (spans.map (inBytes text)) (bytes replacement) (bytes text) := by
  induction spans generalizing text with
  | nil => simp only [map_nil, substituteAll_nil]
  | cons s spans ih =>
    obtain ⟨hs, hspans⟩ := forall_mem_cons.1 hwithin
    obtain ⟨hlast, hdesc⟩ := pairwise_cons.1 hdesc
    have hlast' : ∀ r ∈ spans.map (inBytes text), r.start ≤ r.stop ∧
        r.stop ≤ (s.inBytes text).start :=
      forall_mem_map.2 fun r hr => ⟨(hspans r hr).inBytes.1,
        (length_bytes_take_le_iff (hspans r hr).2 hs.start_le).2 (hlast r hr)⟩
    have hfront := within_take hs hspans hlast
    have hsame : spans.map (inBytes text) = spans.map (inBytes (text.take s.start)) :=
      map_congr_left fun r hr =>
        inBytes_congr (by rw [take_take, Nat.min_self]) (hspans r hr).1 (hlast r hr)
    rw [substituteAll_cons replacement hs.1 hs.2 fun r hr => ⟨(hspans r hr).1, hlast r hr⟩,
      map_cons, substituteAll_cons (bytes replacement) hs.inBytes.1 hs.inBytes.2 hlast',
      bytes_append, bytes_append, ih hdesc hfront, ← hsame]
    simp only [inBytes, take_bytes, drop_bytes]

/-- For every text and all stretches of it that are separate, given in any order: the loop that goes
by offsets in bytes, from the last stretch to the first, never leaves the text or cuts a character,
and comes out with what splicing gives. That is the text with all the stretches replaced at once,
and so are its bytes. No other order of the stretches gives another text. -/
theorem spliceAll_at_once (replacement text : List Char) (spans : List Span)
    (hwithin : ∀ s ∈ spans, s.Within text.length) (hseparate : spans.Pairwise Separate) :
    (fromLast (spans.map (inBytes text))).foldlM
        (fun text span => span.replaceBytes? replacement text) text =
      some (spliceAll spans replacement text) ∧
    spliceAll spans replacement text = substituteAll spans replacement text ∧
    bytes (spliceAll spans replacement text) =
      substituteAll (spans.map (inBytes text)) (bytes replacement) (bytes text) ∧
    ∀ spans' : List Span, spans'.Perm spans →
      spliceAll spans' replacement text = spliceAll spans replacement text := by
  have hdesc := fromLast_descending hwithin hseparate
  have hperm := fromLast_perm spans
  have hwithin' : ∀ s ∈ fromLast spans, s.Within text.length :=
    fun s hs => hwithin s (hperm.mem_iff.1 hs)
  have hsplice := spliceAll_eq_substituteAll replacement hwithin hseparate
  refine ⟨?_, hsplice, ?_, fun spans' hspans' => ?_⟩
  · rw [fromLast_map hwithin, foldlM_replaceBytes? hdesc hwithin']
    rfl
  · rw [hsplice, ← substituteAll_perm hperm, bytes_substituteAll hdesc hwithin',
      substituteAll_perm (hperm.map _)]
  · rw [hsplice, ← substituteAll_perm hspans']
    exact spliceAll_eq_substituteAll replacement (fun s hs => hwithin s (hspans'.mem_iff.1 hs))
      ((hspans'.pairwise_iff fun h => h.symm).2 hseparate)

/-- Two references behind a character of two bytes, collected from the first to the last. -/
theorem spliceAll_at_once_accent :
    let text := "é(this, this)".toList
    let spans : List Span := [⟨2, 6⟩, ⟨8, 12⟩]
    (∀ s ∈ spans, s.Within text.length) ∧ spans.Pairwise Separate ∧
    spans.map (inBytes text) = [⟨3, 7⟩, ⟨9, 13⟩] ∧
    (fromLast (spans.map (inBytes text))).foldlM
        (fun text span => span.replaceBytes? "this._host".toList text) text =
      some "é(this._host, this._host)".toList :=
  ⟨by decide +kernel, by decide +kernel, by decide +kernel,
    (spliceAll_at_once "this._host".toList "é(this, this)".toList [⟨2, 6⟩, ⟨8, 12⟩]
      (by decide +kernel) (by decide +kernel)).1.trans (by decide +kernel)⟩

end SceneView.Script.Span
