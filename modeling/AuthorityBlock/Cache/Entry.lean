import Mathlib

/-! What the two caches of `cache/` share: an `Entry`, and the way each keeps its entries twice,
in a map from keys and in a slice. Go's entries are pointers held by both; here a pointer is a
number, and `Holds m mem key` says that the map sends a key to exactly the entry of the slice
(`mem`) whose key it is. Adding an entry under a free key, and deleting one with its key, keep
this (`Holds.insert`, `Holds.erase`). -/

namespace AuthorityBlock.Cache

structure Entry (K V : Type) where
  Key : K
  Value : V

variable {K : Type}

/-- `m` and the slice hold the same entries: `m` sends `k` to `p` exactly when `p` is in the
slice with key `k`. -/
def Holds (m : K → Option ℕ) (mem : ℕ → Prop) (key : ℕ → K) : Prop :=
  ∀ k p, m k = some p ↔ mem p ∧ key p = k

variable {m : K → Option ℕ} {mem : ℕ → Prop} {key : ℕ → K}

lemma Holds.inj (hm : Holds m mem key) {p q : ℕ} (hp : mem p) (hq : mem q) (hkey : key p = key q) :
    p = q := by
  have h1 := (hm (key q) p).mpr ⟨hp, hkey⟩
  have h2 := (hm (key q) q).mpr ⟨hq, rfl⟩
  exact Option.some.inj (h1.symm.trans h2)

lemma Holds.congr {mem' : ℕ → Prop} {key' : ℕ → K} (hm : Holds m mem key) (hmem : ∀ p, mem' p ↔ mem p)
    (hkey : ∀ p, key' p = key p) : Holds m mem' key' := by
  intro k p
  rw [hmem, hkey]
  exact hm k p

variable [DecidableEq K]

lemma Holds.erase (hm : Holds m mem key) {q : ℕ} (hq : mem q) :
    Holds (Function.update m (key q) none) (fun p => mem p ∧ p ≠ q) key := by
  intro k p
  by_cases hk : k = key q
  · rw [hk, Function.update_self]
    refine ⟨fun h => absurd h.symm (Option.some_ne_none p), ?_⟩
    rintro ⟨⟨hp, hne⟩, hkey⟩
    exact absurd (hm.inj hp hq hkey) hne
  · rw [Function.update_of_ne hk, hm]
    constructor
    · rintro ⟨hp, rfl⟩
      exact ⟨⟨hp, fun hpq => hk (by rw [hpq])⟩, rfl⟩
    · rintro ⟨⟨hp, _⟩, rfl⟩
      exact ⟨hp, rfl⟩

lemma Holds.insert {key' : ℕ → K} (hm : Holds m mem key) {k : K} (hk : m k = none) {p : ℕ}
    (hp : ¬ mem p) (hkey : key' p = k) (hother : ∀ q, q ≠ p → key' q = key q) :
    Holds (Function.update m k (some p)) (fun q => mem q ∨ q = p) key' := by
  have hne : ∀ q, mem q → q ≠ p := fun q hq hqp => hp (hqp ▸ hq)
  intro k' q
  by_cases hk' : k' = k
  · rw [hk', Function.update_self, Option.some.injEq]
    constructor
    · rintro rfl
      exact ⟨Or.inr rfl, hkey⟩
    · rintro ⟨hq | rfl, hq'⟩
      · rw [hother q (hne q hq)] at hq'
        have := (hm k q).mpr ⟨hq, hq'⟩
        rw [hk] at this
        exact absurd this.symm (Option.some_ne_none q)
      · rfl
  · rw [Function.update_of_ne hk', hm]
    constructor
    · rintro ⟨hq, rfl⟩
      exact ⟨Or.inl hq, hother q (hne q hq)⟩
    · rintro ⟨hq | rfl, rfl⟩
      · exact ⟨hq, (hother q (hne q hq)).symm⟩
      · exact absurd hkey hk'

end AuthorityBlock.Cache
