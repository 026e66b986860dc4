import SceneView.Proofs.Gathering

/-!
# Runs of the compiler

Rules to show which changes an action makes. `Quiet` is for actions that only look at the session,
and `Yields` for all others: whether an action finishes or not, what it did is a trace, and it never
stops because of a fault of its own. The rules follow the way in which actions are put together, so
that the proof about an action follows its text.
-/

namespace SceneView

def Fault.isInternal : Fault → Bool
  | unknownMethod _ | invalidStructure (.neverTranslated _ _) => true
  | _ => false

@[simp]
lemma Fault.isInternal_atLine (line : Nat) (f : Fault) :
    (f.atLine line).isInternal = f.isInternal := by
  unfold atLine
  split <;> rfl

def Fault.isConflict : Fault → Bool
  | conflict _ _ => true
  | _ => false

/-- Whether a fault is about one element of the document and about nothing else. -/
def Fault.isPlain (f : Fault) : Bool :=
  !f.isInternal && !f.isConflict

lemma Fault.isInternal_of_isPlain {f : Fault} (h : f.isPlain = true) : f.isInternal = false := by
  simp only [isPlain, Bool.and_eq_true, Bool.not_eq_true'] at h
  exact h.1

lemma Fault.isConflict_of_isPlain {f : Fault} (h : f.isPlain = true) : f.isConflict = false := by
  simp only [isPlain, Bool.and_eq_true, Bool.not_eq_true'] at h
  exact h.2

lemma exists_of_isOk {α : Type} {r : Except Fault α} (h : r.isOk = true) : ∃ a, r = .ok a := by
  cases r with
  | error f => cases h
  | ok a => exact ⟨a, rfl⟩

/-- The answer satisfies one condition if it is a fault and another one if it is not. -/
inductive Ends {α : Type} (F : Fault → Prop) : Except Fault α → (α → Prop) → Prop where
  | ok {a p} :
    p a →
    Ends F (.ok a) p
  | error {f p} :
    F f →
    Ends F (.error f) p

namespace Ends

variable {α β : Type} {F G : Fault → Prop} {r : Except Fault α} {p : α → Prop}

lemma bind {g : α → Except Fault β} {q} (h : Ends F r p) (hg : ∀ a, p a → Ends F (g a) q) :
    Ends F (r >>= g) q := by
  cases h with
  | ok ha => exact hg _ ha
  | error hf => exact .error hf

lemma mono {q} (h : Ends F r p) (hF : ∀ f, F f → G f) (hp : ∀ a, p a → q a) : Ends G r q := by
  cases h with
  | ok ha => exact .ok (hp _ ha)
  | error hf => exact .error (hF _ hf)

lemma self (h : Ends F r p) : Ends F r fun a => r = .ok a := by
  cases h with
  | ok _ => exact .ok rfl
  | error hf => exact .error hf

lemma atLine {line} (h : Ends F r p) (hF : ∀ f, F f → F (f.atLine line)) :
    Ends F (r.mapError (Fault.atLine line)) p := by
  cases h with
  | ok ha => exact .ok ha
  | error hf => exact .error (hF _ hf)

end Ends

/-- The answer is a fault of the document, or it satisfies a condition. -/
abbrev Replies {α : Type} (r : Except Fault α) (p : α → Prop) : Prop :=
  Ends (·.isInternal = false) r p

/-- The answer is a plain fault, or it satisfies a condition. -/
abbrev Answers {α : Type} (r : Except Fault α) (p : α → Prop) : Prop :=
  Ends (·.isPlain = true) r p

lemma Answers.replies {α : Type} {r : Except Fault α} {p} (h : Answers r p) : Replies r p :=
  h.mono (fun _ => Fault.isInternal_of_isPlain) fun _ => id

namespace Compile

variable {α β γ : Type}

lemma run_bind (x : Compile α) (f : α → Compile β) (s : Session) :
    (x >>= f).run.run s =
      match x.run.run s with
      | (.ok a, s') => (f a).run.run s'
      | (.error e, s') => (.error e, s') := by
  cases h : x.run.run s with
  | mk r s' =>
    simp only [ExceptT.run_bind, StateT.run_bind, h]
    cases r <;> rfl

lemma run_get (s : Session) : (get : Compile Session).run.run s = (.ok s, s) :=
  rfl

lemma run_modify (g : Session → Session) (s : Session) :
    (modify g : Compile PUnit).run.run s = (.ok (), g s) :=
  rfl

lemma run_lift (r : Except Fault α) (s : Session) : (liftM r : Compile α).run.run s = (r, s) :=
  rfl

/-- An action that leaves the core of the session alone. -/
def Quiet (x : Compile α) (p : α → Prop) : Prop :=
  ∀ s, (x.run.run s).2.core = s.core ∧ Gathers s [] (x.run.run s).2 ∧ Answers (x.run.run s).1 p

/-- The changes of a run from `s`: those of a finished one satisfy `Φ`. -/
def Yields (x : Compile α) (s : Session) (Φ : α → List Effect → Prop) : Prop :=
  ∃ T, Trace s.core T (x.run.run s).2.core ∧ Gathers s T (x.run.run s).2 ∧
    Replies (x.run.run s).1 (Φ · T)

/-- The statements of a site can be written to the method. -/
structure Ready (isMixin : Bool) (site : Site) (m : String) (s : Session) : Prop where
  sound : Sound s.core
  leads : site.LeadsTo s.core m
  isMixin : s.isMixin = isMixin

/-- The changes of an action, whenever it can write the statements of a site to a method. -/
def Writes (isMixin : Bool) (site : Site) (m : String) (x : Compile α)
    (Φ : α → List Effect → Prop) : Prop :=
  ∀ s, Ready isMixin site m s → Yields x s Φ

variable {isMixin : Bool}

lemma Ready.trace {site m s s' T} (h : Ready isMixin site m s) (tr : Trace s.core T s'.core) :
    Ready isMixin site m s' :=
  ⟨tr.sound h.sound, tr.leadsTo h.leads, tr.isMixin.trans h.isMixin⟩

lemma Ready.of_core {site m s s'} (h : Ready isMixin site m s) (hc : s'.core = s.core) :
    Ready isMixin site m s' :=
  ⟨hc ▸ h.sound, hc ▸ h.leads, (congrArg Core.isMixin hc).trans h.isMixin⟩

lemma Ready.binder {site m s} (h : Ready isMixin site m s) : s.binder = viewBinder isMixin := by
  rw [Session.binder, h.isMixin]
  rfl

lemma Quiet.lift {r : Except Fault α} {p} (h : Answers r p) : Quiet (liftM r) p :=
  fun s => ⟨rfl, .refl s, h⟩

lemma Quiet.ask {g : Session → Except Fault α} {p} (h : ∀ s, Answers (g s) p) :
    Quiet (do let s ← get; liftM (g s)) p :=
  fun s => ⟨rfl, .refl s, h s⟩

lemma Quiet.modify {g : Session → Session} (h : ∀ s, (g s).core = s.core)
    (hg : ∀ s, Gathers s [] (g s)) : Quiet (modify g) fun _ => True :=
  fun s => ⟨h s, hg s, .ok trivial⟩

lemma Quiet.pure {a : α} {p} (h : p a) : Quiet (pure a) p :=
  fun s => ⟨rfl, .refl s, .ok h⟩

lemma Quiet.bind {x} {f : α → Compile β} {p q} (h : Quiet x p) (hf : ∀ a, p a → Quiet (f a) q) :
    Quiet (x >>= f) q := by
  intro s
  obtain ⟨hs, hg, ha⟩ := h s
  rw [run_bind]
  generalize x.run.run s = r at hs hg ha
  obtain ⟨r, s'⟩ := r
  cases ha with
  | ok ha =>
    obtain ⟨hs', hg', hb⟩ := hf _ ha s'
    exact ⟨hs'.trans hs, hg.append hg', hb⟩
  | error he => exact ⟨hs, hg, .error he⟩

lemma Quiet.ask_bind {g : Session → Except Fault α} {f : α → Compile β} {p q}
    (h : ∀ s, Answers (g s) p) (hf : ∀ a, p a → Quiet (f a) q) :
    Quiet (do let s ← get; let a ← liftM (g s); f a) q := by
  simpa only [bind_assoc] using (Quiet.ask h).bind hf

lemma Quiet.mapM {f : α → Compile β} {q l} (h : ∀ a ∈ l, Quiet (f a) (q a)) :
    Quiet (l.mapM f) (List.Forall₂ q l) := by
  induction l with
  | nil => exact Quiet.pure .nil
  | cons a l ih =>
    rw [List.mapM_cons]
    refine Quiet.bind (h a List.mem_cons_self) fun b hb => ?_
    refine Quiet.bind (ih fun c hc => h c (List.mem_cons_of_mem _ hc)) fun bs hbs => ?_
    exact Quiet.pure (.cons hb hbs)

namespace Yields

variable {x : Compile α} {f : α → Compile β} {s : Session} {Φ Φ' : α → List Effect → Prop}
  {Ψ : β → List Effect → Prop}

lemma mono (h : Yields x s Φ) (hΦ : ∀ a T, Φ a T → Φ' a T) : Yields x s Φ' := by
  obtain ⟨T, tr, hg, ha⟩ := h
  exact ⟨T, tr, hg, ha.mono (fun _ => id) fun a => hΦ a T⟩

lemma pure {a} (h : Φ a []) : Yields (pure a) s Φ :=
  ⟨[], .nil, .refl s, .ok h⟩

lemma throw_bind {fault} (h : fault.isInternal = false) :
    Yields ((throw fault : Compile α) >>= f) s Ψ :=
  ⟨[], .nil, .refl s, .error h⟩

lemma throw {fault} (h : fault.isInternal = false) : Yields (throw fault) s Φ :=
  ⟨[], .nil, .refl s, .error h⟩

lemma bind (h : Yields x s Φ)
    (hf : ∀ a s' T, Trace s.core T s'.core → Φ a T → Yields (f a) s' fun b T' => Ψ b (T ++ T')) :
    Yields (x >>= f) s Ψ := by
  obtain ⟨T, tr, hg, ha⟩ := h
  unfold Yields
  rw [run_bind]
  generalize x.run.run s = r at tr hg ha
  obtain ⟨r, s'⟩ := r
  cases ha with
  | ok ha =>
    obtain ⟨T', tr', hg', hb⟩ := hf _ s' T tr ha
    exact ⟨T ++ T', tr.append tr', hg.append hg', hb⟩
  | error he => exact ⟨T, tr, hg, .error he⟩

lemma quiet {p} (h : Quiet x p) (hf : ∀ a s', s'.core = s.core → p a → Yields (f a) s' Ψ) :
    Yields (x >>= f) s Ψ := by
  obtain ⟨hs, hg, ha⟩ := h s
  unfold Yields
  rw [run_bind]
  generalize x.run.run s = r at hs hg ha
  obtain ⟨r, s'⟩ := r
  cases ha with
  | ok ha =>
    obtain ⟨T', tr', hg', hb⟩ := hf _ s' hs ha
    exact ⟨T', hs ▸ tr', hg.append hg', hb⟩
  | error he => exact ⟨[], hs ▸ .nil, hg, .error (Fault.isInternal_of_isPlain he)⟩

lemma lift {r p} (h : Replies r p) (hf : ∀ a, p a → Yields (f a) s Ψ) :
    Yields (liftM r >>= f) s Ψ := by
  cases h with
  | ok ha => exact hf _ ha
  | error he => exact ⟨[], .nil, .refl s, .error he⟩

lemma get {f} (h : Yields (f s) s Ψ) : Yields (get >>= f) s Ψ :=
  h

lemma ask {r : Except Fault α} {p} (hrun : x.run.run s = (r, s)) (hr : Answers r p)
    (h : ∀ a, r = .ok a → Yields (f a) s Ψ) : Yields (x >>= f) s Ψ := by
  unfold Yields
  rw [run_bind, hrun]
  cases hr with
  | ok _ => exact h _ rfl
  | error hf => exact ⟨[], .nil, .refl s, .error (Fault.isInternal_of_isPlain hf)⟩

lemma modify_bind {g f e c} (st : Step s.core e c) (hg : (g s).core = c) (hgathers : Gathers s [e] (g s))
    (h : ∀ s', s'.core = c → Yields (f ()) s' fun b T => Ψ b (e :: T)) :
    Yields (modify g >>= f) s Ψ := by
  obtain ⟨T, tr, hg', hb⟩ := h (g s) hg
  unfold Yields
  rw [run_bind, run_modify]
  exact ⟨e :: T, .cons st (hg ▸ tr), hgathers.append hg', hb⟩

lemma set_bind {new f e} (st : Step s.core e new.core) (hgathers : Gathers s [e] new)
    (h : Yields (f ()) new fun b T => Ψ b (e :: T)) : Yields (set new >>= f) s Ψ := by
  obtain ⟨T, tr, hg, hb⟩ := h
  exact ⟨e :: T, .cons st tr, hgathers.append hg, hb⟩

lemma modify {g : Session → Session} {e} {Φ : Unit → List Effect → Prop}
    (st : Step s.core e (g s).core) (hgathers : Gathers s [e] (g s)) (h : Φ () [e]) :
    Yields (modify g) s Φ :=
  ⟨[e], st.trace, hgathers, .ok h⟩

lemma located {line} (h : Yields x s Φ) : Yields (located line x) s Φ := by
  obtain ⟨T, tr, hg, ha⟩ := h
  exact ⟨T, tr, hg, ha.atLine fun f => (Fault.isInternal_atLine line f).trans⟩

lemma arrange (h : Yields x s fun a T => ∃ T', Φ a T' ∧ Covers T T') : Yields x s Φ := by
  obtain ⟨T, tr, hg, ha⟩ := h
  unfold Yields
  generalize x.run.run s = r at tr hg ha
  obtain ⟨r, s'⟩ := r
  cases ha with
  | ok ha =>
    obtain ⟨T', ha', hT⟩ := ha
    exact ⟨T', trace_plain_iff.1 (hT.plain ▸ trace_plain_iff.2 tr), hg.arrange hT, .ok ha'⟩
  | error he => exact ⟨T, tr, hg, .error he⟩

lemma forM_of {I : Session → Prop} {f : α → Compile PUnit} {l : List α}
    {R : α → List Effect → Prop} {Q : List α → List Effect → Prop}
    (keep : ∀ {s s' T}, I s → Trace s.core T s'.core → I s') (nil : Q [] [])
    (cons : ∀ {a l T T'}, R a T → Q l T' → Q (a :: l) (T ++ T'))
    (h : ∀ a ∈ l, ∀ s, I s → Yields (f a) s fun _ T => R a T) (hs : I s) :
    Yields (l.forM f) s fun _ T => Q l T := by
  induction l generalizing s with
  | nil => exact .pure nil
  | cons a l ih =>
    refine (h a List.mem_cons_self s hs).bind fun _ s' T tr hT => ?_
    refine (ih (fun b hb => h b (List.mem_cons_of_mem _ hb)) (keep hs tr)).mono fun _ T' hT' => ?_
    exact cons hT hT'

end Yields

namespace Writes

variable {site : Site} {m : String} {x : Compile α} {f : α → Compile β}
  {Φ Φ' : α → List Effect → Prop} {Ψ : β → List Effect → Prop}

lemma mono (h : Writes isMixin site m x Φ) (hΦ : ∀ a T, Φ a T → Φ' a T) : Writes isMixin site m x Φ' :=
  fun s hs => (h s hs).mono hΦ

lemma pure {a} (h : Φ a []) : Writes isMixin site m (pure a) Φ :=
  fun _ _ => .pure h

lemma throw {fault} (h : fault.isInternal = false) : Writes isMixin site m (throw fault) Φ :=
  fun _ _ => .throw h

lemma bind (h : Writes isMixin site m x Φ)
    (hf : ∀ a T, Φ a T → Writes isMixin site m (f a) fun b T' => Ψ b (T ++ T')) :
    Writes isMixin site m (x >>= f) Ψ :=
  fun s hs => (h s hs).bind fun a s' T tr ha => hf a T ha s' (hs.trace tr)

lemma quiet {p} (h : Quiet x p) (hf : ∀ a, p a → Writes isMixin site m (f a) Ψ) :
    Writes isMixin site m (x >>= f) Ψ := by
  intro s hs
  exact Yields.quiet h fun a s' hc ha => hf a ha s' (hs.of_core hc)

lemma of_quiet {p} (h : Quiet x p) (hΦ : ∀ a, p a → Φ a []) : Writes isMixin site m x Φ := by
  rw [← bind_pure x]
  exact quiet h fun a ha => .pure (hΦ a ha)

lemma arrange (h : Writes isMixin site m x fun a T => ∃ T', Φ a T' ∧ Covers T T') :
    Writes isMixin site m x Φ :=
  fun s hs => (h s hs).arrange

lemma look {p : α → Prop} (h : Writes isMixin site m x fun a T => p a ∧ T = [])
    (hf : ∀ a, p a → Writes isMixin site m (f a) Ψ) : Writes isMixin site m (x >>= f) Ψ := by
  refine h.bind ?_
  rintro a _ ⟨ha, rfl⟩
  exact hf a ha

lemma mapM {f : α → Compile β} {q l} (names : α → List (Origin × String))
    (h : ∀ a ∈ l, Writes isMixin site m (f a) fun b T => q a b ∧ T = importing (names a)) :
    Writes isMixin site m (l.mapM f) fun bs T =>
      List.Forall₂ q l bs ∧ T = importing (l.flatMap names) := by
  induction l with
  | nil => exact .pure ⟨.nil, rfl⟩
  | cons a l ih =>
    rw [List.mapM_cons]
    refine (h a List.mem_cons_self).bind ?_
    rintro b _ ⟨hb, rfl⟩
    refine (ih fun c hc => h c (List.mem_cons_of_mem _ hc)).bind ?_
    rintro bs _ ⟨hbs, rfl⟩
    refine .pure ⟨.cons hb hbs, ?_⟩
    rw [List.append_nil, List.flatMap_cons, importing_append]

lemma located {line} (h : Writes isMixin site m x Φ) :
    Writes isMixin site m (located line x) Φ :=
  fun s hs => (h s hs).located

lemma forM_of {f : α → Compile PUnit} {l : List α} {R : α → List Effect → Prop}
    {Q : List α → List Effect → Prop} (nil : Q [] [])
    (cons : ∀ {a l T T'}, R a T → Q l T' → Q (a :: l) (T ++ T'))
    (h : ∀ a ∈ l, Writes isMixin site m (f a) fun _ T => R a T) :
    Writes isMixin site m (l.forM f) fun _ T => Q l T :=
  fun _ hs => .forM_of Ready.trace nil cons h hs

end Writes

end Compile

end SceneView
