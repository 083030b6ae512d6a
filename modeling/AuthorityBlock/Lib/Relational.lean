import AuthorityBlock.Lib.Hoare

/-! Two runs compared. `Sim R V m₁ m₂` says that from states related by `R`, every run of `m₁`
that does not panic is matched by a run of `m₂` that does not panic either: it returns the same
error, or a value related by `V` to `m₁`'s, and ends in a state related by `R` to `m₁`'s. `R` is
kept by both runs at once, so it is the invariant of a pair of computations; each operation of
the monad has its rule, and a bind relates continuations at related values. -/

namespace Hoare

variable {ε σ₁ σ₂ α β γ δ : Type}

/-- Two results agree: the same error, or values related by `V`. -/
inductive ResultRel (V : α → β → Prop) : Except ε α → Except ε β → Prop
  | error (e : ε) : ResultRel V (.error e) (.error e)
  | ok {a : α} {b : β} : V a b → ResultRel V (.ok a) (.ok b)

lemma ResultRel.eq {x₁ x₂ : Except ε α} (h : ResultRel Eq x₁ x₂) : x₁ = x₂ := by
  cases h with
  | error e => rfl
  | ok hab => rw [hab]

def Sim (R : σ₁ → σ₂ → Prop) (V : α → β → Prop) (m₁ : ExceptT ε (StateT σ₁ Option) α)
    (m₂ : ExceptT ε (StateT σ₂ Option) β) : Prop :=
  ∀ s₁ s₂, R s₁ s₂ → ∀ x₁ t₁, m₁.run.run s₁ = some (x₁, t₁) →
    ∃ x₂ t₂, m₂.run.run s₂ = some (x₂, t₂) ∧ ResultRel V x₁ x₂ ∧ R t₁ t₂

variable {R : σ₁ → σ₂ → Prop} {V : α → β → Prop} {W : γ → δ → Prop}

theorem Sim.mono {m₁ : ExceptT ε (StateT σ₁ Option) α} {m₂ : ExceptT ε (StateT σ₂ Option) β}
    (h : Sim R V m₁ m₂) {V' : α → β → Prop} (hV : ∀ a b, V a b → V' a b) : Sim R V' m₁ m₂ := by
  intro s₁ s₂ hs x₁ t₁ hrun
  obtain ⟨x₂, t₂, hrun₂, hx, ht⟩ := h s₁ s₂ hs x₁ t₁ hrun
  refine ⟨x₂, t₂, hrun₂, ?_, ht⟩
  cases hx with
  | error e => exact .error e
  | ok hab => exact .ok (hV _ _ hab)

theorem sim_pure {a : α} {b : β} (h : V a b) :
    Sim R V (pure a : ExceptT ε (StateT σ₁ Option) α) (pure b : ExceptT ε (StateT σ₂ Option) β) := by
  intro s₁ s₂ hs x₁ t₁ hrun
  obtain ⟨rfl, rfl⟩ := Prod.mk.inj (Option.some.inj hrun)
  exact ⟨_, _, rfl, .ok h, hs⟩

theorem sim_throw (e : ε) :
    Sim R V (throw e : ExceptT ε (StateT σ₁ Option) α) (throw e : ExceptT ε (StateT σ₂ Option) β) := by
  intro s₁ s₂ hs x₁ t₁ hrun
  obtain ⟨rfl, rfl⟩ := Prod.mk.inj (Option.some.inj hrun)
  exact ⟨_, _, rfl, .error e, hs⟩

theorem sim_liftExcept (e : Except ε α) :
    Sim R Eq (liftM e : ExceptT ε (StateT σ₁ Option) α) (liftM e : ExceptT ε (StateT σ₂ Option) α) := by
  cases e with
  | error e => exact sim_throw e
  | ok a => exact sim_pure rfl

theorem sim_liftOption (o : Option α) :
    Sim R Eq (liftM o : ExceptT ε (StateT σ₁ Option) α) (liftM o : ExceptT ε (StateT σ₂ Option) α) := by
  intro s₁ s₂ hs x₁ t₁ hrun
  cases o with
  | none => cases hrun
  | some a =>
    obtain ⟨rfl, rfl⟩ := Prod.mk.inj (Option.some.inj hrun)
    exact ⟨_, _, rfl, .ok rfl, hs⟩

/-- The states themselves are related values. -/
theorem sim_get :
    Sim R R (get : ExceptT ε (StateT σ₁ Option) σ₁) (get : ExceptT ε (StateT σ₂ Option) σ₂) := by
  intro s₁ s₂ hs x₁ t₁ hrun
  obtain ⟨rfl, rfl⟩ := Prod.mk.inj (Option.some.inj hrun)
  exact ⟨_, _, rfl, .ok hs, hs⟩

/-- The rule of sequencing: the same error ends both runs, and related values go on to related
continuations. -/
theorem Sim.bind {m₁ : ExceptT ε (StateT σ₁ Option) α} {m₂ : ExceptT ε (StateT σ₂ Option) β}
    {f₁ : α → ExceptT ε (StateT σ₁ Option) γ} {f₂ : β → ExceptT ε (StateT σ₂ Option) δ}
    (hm : Sim R V m₁ m₂) (hf : ∀ a b, V a b → Sim R W (f₁ a) (f₂ b)) :
    Sim R W (m₁ >>= f₁) (m₂ >>= f₂) := by
  intro s₁ s₂ hs x₁ t₁ hrun
  simp only [ExceptT.run_bind, StateT.run_bind] at hrun ⊢
  obtain ⟨⟨y₁, u₁⟩, hm₁, hrun⟩ := Option.bind_eq_some_iff.mp hrun
  obtain ⟨y₂, u₂, hm₂, hy, hu⟩ := hm s₁ s₂ hs y₁ u₁ hm₁
  simp only [hm₂, Option.bind_eq_bind, Option.bind_some]
  cases hy with
  | error e =>
    obtain ⟨rfl, rfl⟩ := Prod.mk.inj (Option.some.inj hrun)
    exact ⟨_, _, rfl, .error e, hu⟩
  | ok hab => exact hf _ _ hab u₁ u₂ hu x₁ t₁ hrun

/-- A bind whose first part returns equal values, followed by the same continuation. -/
theorem Sim.bind_eq {m₁ : ExceptT ε (StateT σ₁ Option) α} {m₂ : ExceptT ε (StateT σ₂ Option) α}
    {f₁ : α → ExceptT ε (StateT σ₁ Option) γ} {f₂ : α → ExceptT ε (StateT σ₂ Option) δ}
    (hm : Sim R Eq m₁ m₂) (hf : ∀ a, Sim R W (f₁ a) (f₂ a)) : Sim R W (m₁ >>= f₁) (m₂ >>= f₂) :=
  hm.bind fun a _ hab => hab ▸ hf a

theorem sim_ite {c : Prop} [Decidable c] {m₁ n₁ : ExceptT ε (StateT σ₁ Option) α}
    {m₂ n₂ : ExceptT ε (StateT σ₂ Option) β} (h₁ : c → Sim R V m₁ m₂) (h₂ : ¬ c → Sim R V n₁ n₂) :
    Sim R V (if c then m₁ else n₁) (if c then m₂ else n₂) := by
  by_cases hc : c
  · rw [if_pos hc, if_pos hc]
    exact h₁ hc
  · rw [if_neg hc, if_neg hc]
    exact h₂ hc

end Hoare
