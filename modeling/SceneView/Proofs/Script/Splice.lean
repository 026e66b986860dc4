import SceneView.Proofs.Script.Locate
import SceneView.Proofs.Script.Substitution

/-!
# Splicing is substitution

Splicing works on one stretch after the other, from the last to the first. For words of four
characters that are apart, the outcome is the substitution of all of them at once.
-/

open List

namespace SceneView.Script

/-- What stands for the character at an offset once the words of four characters that start at the
given offsets have been replaced. -/
def substitute (starts : List Nat) (replacement : List Char) (i : Nat) (c : Char) : List Char :=
  if i ∈ starts then replacement
  else if starts.any fun s => s < i && i < s + 4 then []
  else [c]

/-- The characters from an offset on, with the words that start at the given offsets replaced. -/
def substituteFrom (starts : List Nat) (replacement : List Char) (offset : Nat)
    (text : List Char) : List Char :=
  (text.zipIdx offset).flatMap fun (c, i) => substitute starts replacement i c

section Substitute

variable {starts starts' : List Nat} {replacement text : List Char} {offset s : Nat}

lemma substituteFrom_append (a b : List Char) :
    substituteFrom starts replacement offset (a ++ b) =
      substituteFrom starts replacement offset a ++
        substituteFrom starts replacement (offset + a.length) b := by
  rw [substituteFrom, zipIdx_append, flatMap_append]
  rfl

lemma substituteFrom_congr
    (h : ∀ i, offset ≤ i → i < offset + text.length → ∀ c,
      substitute starts replacement i c = substitute starts' replacement i c) :
    substituteFrom starts replacement offset text =
      substituteFrom starts' replacement offset text := by
  induction text generalizing offset with
  | nil => rfl
  | cons c text ih =>
    have hrest := @ih (offset + 1) fun i hlow hhigh => h i (by omega) (by simp; omega)
    have hhead := h offset (Nat.le_refl _) (by simp) c
    show substitute starts replacement offset c ++ substituteFrom starts replacement _ text =
      substitute starts' replacement offset c ++ substituteFrom starts' replacement _ text
    rw [hhead, hrest]

lemma substituteFrom_eq_self (h : ∀ s ∈ starts, s + 4 ≤ offset ∨ offset + text.length ≤ s) :
    substituteFrom starts replacement offset text = text := by
  have hnone : substituteFrom starts replacement offset text =
      substituteFrom [] replacement offset text := by
    refine substituteFrom_congr fun i hlow hhigh c => ?_
    have hmem : i ∉ starts := fun hi => by
      have := h i hi
      omega
    have hany : (starts.any fun s => s < i && i < s + 4) = false := by
      simp only [any_eq_false, Bool.and_eq_true, decide_eq_true_eq, not_and]
      intro s hs hlt
      have := h s hs
      omega
    simp [substitute, hmem, hany]
  rw [hnone]
  clear h hnone
  induction text generalizing offset with
  | nil => rfl
  | cons c text ih => exact congrArg (c :: ·) ih

lemma substituteFrom_word {word} (hs : s ∈ starts) (hlength : word.length = 4)
    (happart : ∀ s' ∈ starts, s' ≠ s → Apart s' s) :
    substituteFrom starts replacement s word = replacement := by
  have hinner : ∀ i, s < i → i < s + 4 → ∀ c, substitute starts replacement i c = [] := by
    intro i hlow hhigh c
    have hmem : i ∉ starts := fun hi => by
      have := happart i hi (by omega)
      unfold Apart at this
      omega
    have hany : (starts.any fun s => s < i && i < s + 4) = true :=
      any_eq_true.2 ⟨s, hs, by simp [hlow, hhigh]⟩
    simp [substitute, hmem, hany]
  match word, hlength with
  | [a, b, c, d], _ =>
    show substitute starts replacement s a ++ (substitute starts replacement (s + 1) b ++
      (substitute starts replacement (s + 2) c ++ (substitute starts replacement (s + 3) d ++ []))) =
      replacement
    rw [hinner (s + 1) (by omega) (by omega), hinner (s + 2) (by omega) (by omega),
      hinner (s + 3) (by omega) (by omega)]
    simp [substitute, hs]

end Substitute

namespace Span

def word (start : Nat) : Span := ⟨start, start + 4⟩

variable {replacement text : List Char} {starts : List Nat}

lemma within_words (hbound : ∀ s ∈ starts, s + 4 ≤ text.length) :
    ∀ span ∈ starts.map word, span.Within text.length :=
  forall_mem_map.2 fun s hs => ⟨Nat.le_add_right s 4, hbound s hs⟩

lemma separate_words (happart : starts.Pairwise Apart) : (starts.map word).Pairwise Separate := by
  refine pairwise_map.2 (happart.imp fun {s s'} h => ?_)
  have h : s + 4 ≤ s' ∨ s' + 4 ≤ s := h
  refine (separate_iff (by simp [word]) (by simp [word])).2 fun i => ?_
  simp only [word]
  omega

lemma place_words (happart : starts.Pairwise Apart) (i : Nat) (c : Char) :
    place (starts.map word) replacement i (some c) = substitute starts replacement i c := by
  have hnodup : starts.Nodup := happart.imp fun {s s'} h e => by
    unfold Apart at h
    omega
  have hcount : (starts.map word).countP (·.start == i) = if i ∈ starts then 1 else 0 := by
    rw [countP_map, ← hnodup.count]
    rfl
  simp only [place, hcount, substitute]
  by_cases hi : i ∈ starts
  · have hcover : ((starts.map word).any fun s => s.start ≤ i && i < s.stop) = true :=
      any_eq_true.2 ⟨word i, mem_map_of_mem hi, by simp [word]⟩
    simp [hi, hcover]
  · have hcover : ((starts.map word).any fun s => s.start ≤ i && i < s.stop) =
        starts.any fun s => s < i && i < s + 4 := by
      rw [any_map, Bool.eq_iff_iff, any_eq_true, any_eq_true]
      refine exists_congr fun s => and_congr_right fun hs => ?_
      have hle : s ≤ i ↔ s < i := ⟨fun h => Nat.lt_of_le_of_ne h fun e => hi (e ▸ hs), Nat.le_of_lt⟩
      simp only [Function.comp_apply, Bool.and_eq_true, decide_eq_true_iff]
      exact and_congr_left fun _ => hle
    simp [hi, hcover]

lemma flatMap_range_getElem? {α β : Type} (f : Nat → Option α → List β) (offset : Nat)
    (text : List α) :
    ((List.range text.length).flatMap fun i => f (offset + i) text[i]?) =
      (text.zipIdx offset).flatMap fun (c, i) => f i (some c) := by
  induction text generalizing offset with
  | nil => rfl
  | cons c text ih =>
    have hrest := ih (offset + 1)
    simp only [Nat.add_assoc, Nat.add_comm 1] at hrest
    rw [length_cons, range_succ_eq_map, flatMap_cons, flatMap_map,
      zipIdx_cons, flatMap_cons, ← hrest]
    simp

lemma substituteAll_words (happart : starts.Pairwise Apart)
    (hbound : ∀ s ∈ starts, s + 4 ≤ text.length) :
    substituteAll (starts.map word) replacement text =
      substituteFrom starts replacement 0 text := by
  have hend : place (starts.map word) replacement text.length none = [] := by
    have hcount : (starts.map word).countP (·.start == text.length) = 0 := by
      simp only [countP_eq_zero, forall_mem_map, word, beq_iff_eq]
      intro s hs
      have := hbound s hs
      omega
    simp [place, hcount]
  rw [substituteAll, range_succ, flatMap_append, flatMap_singleton,
    getElem?_eq_none (Nat.le_refl _), hend, append_nil]
  have := flatMap_range_getElem? (place (starts.map word) replacement) 0 text
  simp only [Nat.zero_add, place_words happart] at this
  exact this

lemma spliceAll_eq (happart : starts.Pairwise Apart) (hbound : ∀ s ∈ starts, s + 4 ≤ text.length) :
    spliceAll (starts.map word) replacement text = substituteFrom starts replacement 0 text :=
  (spliceAll_eq_substituteAll _ (within_words hbound) (separate_words happart)).trans
    (substituteAll_words happart hbound)

lemma length_substituteFrom (replacement : List Char) (happart : starts.Pairwise Apart)
    (hbound : ∀ s ∈ starts, s + 4 ≤ text.length) :
    (substituteFrom starts replacement 0 text).length + 4 * starts.length =
      text.length + starts.length * replacement.length := by
  have hwithin := within_words hbound
  have hseparate := separate_words happart
  have hperm := fromLast_perm (starts.map word)
  have hlength := length_substituteAll replacement
    (fromLast_descending hwithin hseparate) fun s hs => hwithin s (hperm.mem_iff.1 hs)
  have hsum : ((starts.map word).map fun s => s.stop - s.start).sum = 4 * starts.length := by
    have hfour : ∀ s, (word s).stop - (word s).start = 4 := fun s => Nat.add_sub_cancel_left s 4
    simp only [map_map, Function.comp_def, hfour, map_const', sum_replicate_nat]
    omega
  rw [substituteAll_perm hperm, hperm.length_eq, (hperm.map _).sum_nat, hsum,
    substituteAll_words happart hbound, length_map] at hlength
  exact hlength

end Span

end SceneView.Script
