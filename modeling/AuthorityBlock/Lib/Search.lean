import Mathlib

/-! The binary search of Go's `sort.Search`: over `[0, n)`, the least index at which a test
holds, for a test that is false and then true. The test runs in a monad, so that a caller
whose test can fail (Go raises the failure with `panic` and takes it back with `recover`)
stops the search with that failure. -/

namespace Search

variable {m : Type → Type} [Monad m]

/-- The loop of `sort.Search` on `[i, j)`, with `f (i - 1)` false and `f j` true;
`int(uint(i+j) >> 1)` is the midpoint. -/
def searchLoop (f : ℕ → m Bool) (i j : ℕ) : m ℕ :=
  if i < j then
    f ((i + j) / 2) >>= fun b =>
      if !b then searchLoop f ((i + j) / 2 + 1) j else searchLoop f i ((i + j) / 2)
  else pure i
termination_by j - i
decreasing_by all_goals omega

def search (n : ℕ) (f : ℕ → m Bool) : m ℕ := searchLoop f 0 n

/-- `k` is the least index of `[0, n)` where `p` holds, or `n` when there is none. -/
def IsFirst (n : ℕ) (p : ℕ → Bool) (k : ℕ) : Prop :=
  k ≤ n ∧ (∀ l < k, p l = false) ∧ (k < n → p k = true)

/-- The test `sort.Search` expects: on `[0, n)`, once true it stays true. -/
def UpwardClosed (n : ℕ) (p : ℕ → Bool) : Prop := ∀ a b, a ≤ b → b < n → p a = true → p b = true

section Spec

variable [LawfulMonad m] {n : ℕ} {f : ℕ → m Bool} {p : ℕ → Bool}

lemma isFirst_unique {k k' : ℕ} (hk : IsFirst n p k)
    (hk' : IsFirst n p k') : k = k' := by
  obtain ⟨hkn, hbelow, hat⟩ := hk
  obtain ⟨hkn', hbelow', hat'⟩ := hk'
  rcases Nat.lt_trichotomy k k' with hlt | heq | hgt
  · exact absurd (hat (by omega)) (by simp [hbelow' k hlt])
  · exact heq
  · exact absurd (hat' (by omega)) (by simp [hbelow k' hgt])

lemma searchLoop_isFirst (hf : ∀ k < n, f k = pure (p k)) (hmono : UpwardClosed n p) :
    ∀ i j, i ≤ j → j ≤ n → (∀ l < i, p l = false) → (j < n → p j = true) →
      ∃ k, searchLoop f i j = pure k ∧ IsFirst n p k := by
  intro i j
  fun_induction searchLoop f i j with
  | case1 i j hij ih_false ih_true =>
    intro _ hjn hbelow hat
    have hmid : (i + j) / 2 < n := by omega
    rw [hf _ hmid, pure_bind]
    cases hp : p ((i + j) / 2) with
    | false =>
      -- the test is false at the midpoint, so it is false below it too
      refine ih_false (by omega) hjn (fun l hl => ?_) hat
      by_contra hpl
      have := hmono l _ (by omega) hmid (by simpa using hpl)
      rw [hp] at this
      exact absurd this (by decide)
    | true => exact ih_true (by omega) (by omega) hbelow fun _ => hp
  | case2 i j hij =>
    intro hle hjn hbelow hat
    have hji : j = i := by omega
    subst hji
    exact ⟨j, rfl, hjn, hbelow, hat⟩

lemma search_isFirst (hf : ∀ k < n, f k = pure (p k)) (hmono : UpwardClosed n p) :
    ∃ k, search n f = pure k ∧ IsFirst n p k :=
  searchLoop_isFirst hf hmono 0 n (Nat.zero_le n) (Nat.le_refl n) (fun _ h => absurd h (by omega))
    (fun h => absurd h (Nat.lt_irrefl n))

lemma search_except {ε : Type} {n : ℕ} {f : ℕ → Except ε Bool}
    (hf : ∀ k < n, ∃ b, f k = .ok b)
    (hmono : ∀ a b, a ≤ b → b < n → f a = .ok true → f b = .ok true) :
    ∃ k, search n f = .ok k ∧ k ≤ n ∧ (∀ l < k, f l = .ok false) ∧ (k < n → f k = .ok true) := by
  let p : ℕ → Bool := fun k => match f k with
    | .ok b => b
    | .error _ => false
  have hfp : ∀ k < n, f k = pure (p k) := fun k hk => by
    obtain ⟨b, hb⟩ := hf k hk
    simp only [p, hb]
    rfl
  have hp : UpwardClosed n p := fun a b hab hb hpa => by
    have hfa := hfp a (by omega)
    have hfb := hmono a b hab hb (by rw [hfa, hpa]; rfl)
    rw [hfp b hb] at hfb
    exact Except.ok.inj hfb
  obtain ⟨k, hk, hkn, hbelow, hat⟩ := search_isFirst hfp hp
  refine ⟨k, hk, hkn, fun l hl => ?_, fun hlt => ?_⟩
  · rw [hfp l (by omega), hbelow l hl]
    rfl
  · rw [hfp k hlt, hat hlt]
    rfl

end Spec

end Search
