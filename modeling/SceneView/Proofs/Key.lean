import SceneView.Project.Cache
import SceneView.Proofs.Bytes
import SceneView.Proofs.Json

/-!
# Keys of stored results

The key of a result is the document, a zero byte and the options. A document may have zero bytes of
its own, but the options have none, so the last one ends the document. Options are read back from
what is written of them, so the key tells both.
-/

open List

namespace SceneView

namespace Json

/-- A value that is told by its compact form, which has no zero character. -/
def IsFaithful (j : Json) : Prop :=
  j.ReadsBack ∧ j.IsClear

lemma IsFaithful.ofString (s : String) : (ofString s).IsFaithful :=
  ⟨.ofString s, .ofString s⟩

lemma IsFaithful.ofMembers {members} (h : ∀ p ∈ members, p.2.IsFaithful) :
    (ofMembers members).IsFaithful :=
  ⟨.ofMembers fun p hp => (h p hp).1, .ofMembers fun p hp => (h p hp).2⟩

lemma compact_inj {j j' : Json} (hj : j.ReadsBack) (hj' : j'.ReadsBack)
    (h : j.compact = j'.compact) : j = j' := by
  have hread := hj.read?
  rw [h, hj'.read?] at hread
  exact (Option.some.inj hread).symm

end Json

namespace CompileOptions

lemma toJson_isFaithful (o : CompileOptions) : o.toJson.IsFaithful := by
  have hlibraries : o.libraries.toJson.IsFaithful := by
    refine .ofMembers fun p hp => ?_
    simp only [mem_cons, not_mem_nil, or_false] at hp
    obtain rfl | rfl | rfl | rfl := hp
    all_goals exact .ofString _
  refine .ofMembers fun p hp => ?_
  simp only [mem_cons, not_mem_nil, or_false] at hp
  obtain rfl | rfl := hp
  · exact hlibraries
  · exact .ofString _

lemma toJson_inj {o o' : CompileOptions} (h : o.toJson = o'.toJson) : o = o' := by
  have hlabel : ∀ v v' : ClassVisibility, v.label = v'.label → v = v' := by
    intro v v'
    cases v <;> cases v' <;> decide
  obtain ⟨⟨core, gui, runtime, utility⟩, visibility⟩ := o
  obtain ⟨⟨core', gui', runtime', utility'⟩, visibility'⟩ := o'
  simp only [toJson, Libraries.toJson, Json.ofMembers, Json.ofString, map_cons, map_nil,
    Json.object.injEq, List.cons.injEq, Prod.mk.injEq, Json.string.injEq, Option.some.injEq,
    and_true, true_and] at h
  obtain ⟨⟨rfl, rfl, rfl, rfl⟩, hvisibility⟩ := h
  rw [hlabel _ _ hvisibility]

end CompileOptions

lemma append_mark_inj {mark : UInt8} {front front' back back'} (hback : mark ∉ back)
    (hback' : mark ∉ back') (h : front ++ mark :: back = front' ++ mark :: back') :
    front = front' ∧ back = back' := by
  have hcut : ∀ (front : List UInt8) {back}, mark ∉ back →
      (front ++ mark :: back).reverse.takeWhile (· != mark) = back.reverse := by
    intro front back hback
    rw [reverse_append, reverse_cons, append_assoc, takeWhile_append_of_pos]
    · simp
    · intro b hb
      simpa using fun heq : b = mark => hback (heq ▸ mem_reverse.1 hb)
  have hreverse := hcut front hback
  rw [h, hcut front' hback', reverse_inj] at hreverse
  obtain rfl := hreverse
  exact ⟨append_cancel_right h, rfl⟩

namespace Digest

lemma hexDigit_inj : ∀ m < 16, ∀ n < 16, hexDigit m = hexDigit n → m = n := by
  decide

lemma hex_inj {bytes bytes'} (h : hex bytes = hex bytes') : bytes = bytes' := by
  have hlist := String.ofList_inj.1 h
  clear h
  induction bytes generalizing bytes' with
  | nil =>
    cases bytes' with
    | nil => rfl
    | cons b' bytes' => cases hlist
  | cons b bytes ih =>
    cases bytes' with
    | nil => cases hlist
    | cons b' bytes' =>
      have hb := b.toNat_lt
      have hb' := b'.toNat_lt
      simp only [flatMap_cons, cons_append, nil_append, List.cons.injEq] at hlist
      obtain ⟨hhigh, hlow, hrest⟩ := hlist
      have hhigh := hexDigit_inj _ (by omega) _ (by omega) hhigh
      have hlow := hexDigit_inj _ (by omega) _ (by omega) hlow
      rw [ih hrest, UInt8.toNat_inj.1 (show b.toNat = b'.toNat by omega)]

end Digest

namespace Cache

lemma key_inj {options options' : CompileOptions} {source source'}
    (h : key options source = key options' source') : options = options' ∧ source = source' := by
  have hzero : ∀ o : CompileOptions, 0 ∉ o.toJson.compact.toUTF8.toList :=
    fun o => Text.zero_not_mem_toUTF8 o.toJson_isFaithful.2
  obtain ⟨hsource, hoptions⟩ := append_mark_inj (hzero options) (hzero options') h
  have hjson := Json.compact_inj options.toJson_isFaithful.1 options'.toJson_isFaithful.1
    (Text.toUTF8_inj hoptions)
  exact ⟨CompileOptions.toJson_inj hjson, Text.toUTF8_inj hsource⟩

/-- Keys are equal only for the same document with the same options, also where a document has zero
bytes or ends like options. -/
theorem key_eq_key_iff (options options' : CompileOptions) (source source' : String) :
    key options source = key options' source' ↔ source = source' ∧ options = options' := by
  constructor
  · intro h
    exact (key_inj h).symm
  · rintro ⟨rfl, rfl⟩
    rfl

end Cache

end SceneView
