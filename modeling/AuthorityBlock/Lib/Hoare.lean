import Mathlib

/-! Partial correctness of computations that return an error beside the effects they have made,
and that may stop: Go functions that return an `error`, and panic. Such a computation is
`ExceptT ε (StateT σ Option) α`, a panic being `none`. `Triple P m Q` says that from every state
where `P` holds, a run of `m` that does not panic ends with a result `x`, a value or an error,
and a state `s'` with `Q x s'`. Each operation of the monad has its rule, and a computation gets
its triple from those of its parts. `Keeps I m` is the triple of an invariant, kept whether `m`
returns a value or an error. -/

namespace Hoare

variable {ε σ α β : Type}

def Triple (P : σ → Prop) (m : ExceptT ε (StateT σ Option) α) (Q : Except ε α → σ → Prop) :
    Prop :=
  ∀ s, P s → ∀ x s', m.run.run s = some (x, s') → Q x s'

def Keeps (I : σ → Prop) (m : ExceptT ε (StateT σ Option) α) : Prop := Triple I m fun _ => I

section Rules

variable {P : σ → Prop} {Q R : Except ε α → σ → Prop}

theorem Triple.mono {m : ExceptT ε (StateT σ Option) α} (h : Triple P m Q) {P' : σ → Prop}
    {Q' : Except ε α → σ → Prop} (hP : ∀ s, P' s → P s) (hQ : ∀ x s, Q x s → Q' x s) :
    Triple P' m Q' :=
  fun s hs x s' hrun => hQ x s' (h s (hP s hs) x s' hrun)

theorem triple_pure (a : α) (h : ∀ s, P s → Q (.ok a) s) :
    Triple P (pure a : ExceptT ε (StateT σ Option) α) Q := by
  intro s hs x s' hrun
  obtain ⟨rfl, rfl⟩ := Prod.mk.inj (Option.some.inj hrun)
  exact h s hs

theorem triple_throw (e : ε) (h : ∀ s, P s → Q (.error e) s) :
    Triple P (throw e : ExceptT ε (StateT σ Option) α) Q := by
  intro s hs x s' hrun
  obtain ⟨rfl, rfl⟩ := Prod.mk.inj (Option.some.inj hrun)
  exact h s hs

/-- The rule of sequencing: an error of `m` is returned as it is, a value goes on to `f`. -/
theorem Triple.bind {m : ExceptT ε (StateT σ Option) α} {f : α → ExceptT ε (StateT σ Option) β}
    {Q : Except ε β → σ → Prop} (hm : Triple P m R) (hf : ∀ a, Triple (R (.ok a)) (f a) Q)
    (he : ∀ e s, R (.error e) s → Q (.error e) s) : Triple P (m >>= f) Q := by
  intro s hs x s' hrun
  simp only [ExceptT.run_bind, StateT.run_bind] at hrun
  obtain ⟨⟨y, s₁⟩, hm₁, hrun⟩ := Option.bind_eq_some_iff.mp hrun
  cases y with
  | error e =>
    obtain ⟨rfl, rfl⟩ := Prod.mk.inj (Option.some.inj hrun)
    exact he e _ (hm s hs _ _ hm₁)
  | ok a => exact hf a s₁ (hm s hs _ _ hm₁) x s' hrun

theorem triple_get {Q : Except ε σ → σ → Prop} :
    Triple (fun s => Q (.ok s) s) (get : ExceptT ε (StateT σ Option) σ) Q := by
  intro s hs x s' hrun
  obtain ⟨rfl, rfl⟩ := Prod.mk.inj (Option.some.inj hrun)
  exact hs

theorem triple_set {Q : Except ε PUnit → σ → Prop} (t : σ) :
    Triple (fun _ => Q (.ok ⟨⟩) t) (set t : ExceptT ε (StateT σ Option) PUnit) Q := by
  intro s hs x s' hrun
  obtain ⟨rfl, rfl⟩ := Prod.mk.inj (Option.some.inj hrun)
  exact hs

/-- A panic of the lifted option ends the run. -/
theorem triple_liftOption (o : Option α) :
    Triple (fun s => ∀ a, o = some a → Q (.ok a) s) (liftM o : ExceptT ε (StateT σ Option) α) Q := by
  intro s hs x s' hrun
  cases o with
  | none => cases hrun
  | some a =>
    obtain ⟨rfl, rfl⟩ := Prod.mk.inj (Option.some.inj hrun)
    exact hs a rfl

theorem triple_liftExcept (e : Except ε α) :
    Triple (fun s => Q e s) (liftM e : ExceptT ε (StateT σ Option) α) Q := by
  intro s hs x s' hrun
  obtain ⟨rfl, rfl⟩ := Prod.mk.inj (Option.some.inj hrun)
  exact hs

end Rules

section Invariants

variable {I : σ → Prop}

theorem keeps_pure (a : α) : Keeps I (pure a : ExceptT ε (StateT σ Option) α) :=
  triple_pure a fun _ hs => hs

theorem keeps_throw (e : ε) : Keeps I (throw e : ExceptT ε (StateT σ Option) α) :=
  triple_throw e fun _ hs => hs

theorem keeps_liftOption (o : Option α) : Keeps I (liftM o : ExceptT ε (StateT σ Option) α) :=
  (triple_liftOption o).mono (fun _ hs _ _ => hs) fun _ _ h => h

theorem keeps_liftExcept (e : Except ε α) : Keeps I (liftM e : ExceptT ε (StateT σ Option) α) :=
  triple_liftExcept (Q := fun _ => I) e

theorem keeps_get : Keeps I (get : ExceptT ε (StateT σ Option) σ) := triple_get (Q := fun _ => I)

theorem Keeps.bind {m : ExceptT ε (StateT σ Option) α} {f : α → ExceptT ε (StateT σ Option) β}
    (hm : Keeps I m) (hf : ∀ a, Keeps I (f a)) : Keeps I (m >>= f) :=
  Triple.bind hm hf fun _ _ hs => hs

theorem keeps_ite {c : Prop} [Decidable c] {m₁ m₂ : ExceptT ε (StateT σ Option) α}
    (h₁ : c → Keeps I m₁) (h₂ : ¬ c → Keeps I m₂) : Keeps I (if c then m₁ else m₂) := by
  by_cases hc : c
  · rw [if_pos hc]
    exact h₁ hc
  · rw [if_neg hc]
    exact h₂ hc

end Invariants

section Returns

/-! What a computation returns, whatever the state: `Returns m p` says that every value `m`
returns satisfies `p`. An error returns no value, so a computation that may fail before does not
matter to it. -/

def Returns (m : ExceptT ε (StateT σ Option) α) (p : α → Prop) : Prop :=
  Triple (fun _ => True) m fun x _ => ∀ a, x = .ok a → p a

variable {p q : α → Prop}

theorem returns_pure {a : α} (h : p a) : Returns (pure a : ExceptT ε (StateT σ Option) α) p :=
  triple_pure a fun _ _ _ ha => Except.ok.inj ha ▸ h

theorem returns_throw (e : ε) : Returns (throw e : ExceptT ε (StateT σ Option) α) p :=
  triple_throw e fun _ _ _ ha => by cases ha

theorem returns_liftExcept (e : Except ε α) :
    Returns (liftM e : ExceptT ε (StateT σ Option) α) fun a => e = .ok a :=
  triple_liftExcept (Q := fun x _ => ∀ a, x = .ok a → e = .ok a) e |>.mono (fun _ _ _ h => h)
    fun _ _ h => h

theorem Returns.mono {m : ExceptT ε (StateT σ Option) α} (h : Returns m p)
    (hpq : ∀ a, p a → q a) : Returns m q :=
  Triple.mono h (fun _ h => h) fun _ _ h a ha => hpq a (h a ha)

theorem Returns.bind {m : ExceptT ε (StateT σ Option) α} {f : α → ExceptT ε (StateT σ Option) β}
    {r : β → Prop} (hm : Returns m p) (hf : ∀ a, p a → Returns (f a) r) : Returns (m >>= f) r :=
  Triple.bind (R := fun x _ => ∀ a, x = .ok a → p a) hm
    (fun a s hs => hf a (hs a rfl) s trivial) fun _ _ _ a ha => by cases ha

/-- What `m` returns does not matter to a property of what the continuation returns. -/
theorem Returns.bind_any {m : ExceptT ε (StateT σ Option) α}
    {f : α → ExceptT ε (StateT σ Option) β} {r : β → Prop} (hf : ∀ a, Returns (f a) r) :
    Returns (m >>= f) r :=
  Returns.bind (p := fun _ => True) (fun _ _ _ _ _ _ _ => trivial) fun a _ => hf a

end Returns

end Hoare
