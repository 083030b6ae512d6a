import Mathlib

/-! Points of a grid `base + step * (k + 1)` on the natural numbers: the first one at or after
a target, computed by a ceiling division as schedulers round a time up to their next slot. -/

namespace Grid

variable {step base target m : ℕ}

/-- One step after `base`, moved up by whole steps to the first point at or after `target`. -/
def firstAfter (step base target : ℕ) : ℕ :=
  if target > base + step then
    base + step + (target - (base + step) + step - 1) / step * step
  else base + step

lemma ceil_mul_bounds (hs : 0 < step) (d : ℕ) :
    d ≤ (d + step - 1) / step * step ∧ (d + step - 1) / step * step ≤ d + step - 1 := by
  have h1 := Nat.div_mul_le_self (d + step - 1) step
  have h2 := Nat.lt_div_mul_add (a := d + step - 1) hs
  constructor <;> omega

lemma ceil_div_le_of_le_mul (hs : 0 < step) {d j : ℕ} (h : d ≤ step * j) :
    (d + step - 1) / step ≤ j := by
  have : (d + step - 1) / step < j + 1 := by
    rw [Nat.div_lt_iff_lt_mul hs]
    have : step * j + step = (j + 1) * step := by ring
    omega
  omega

lemma le_firstAfter (hs : 0 < step) : target ≤ firstAfter step base target := by
  unfold firstAfter
  split_ifs with h
  · have := (ceil_mul_bounds hs (target - (base + step))).1
    omega
  · omega

lemma lt_firstAfter (hs : 0 < step) : base < firstAfter step base target := by
  unfold firstAfter
  split_ifs <;> omega

lemma firstAfter_le_max (hs : 0 < step) :
    firstAfter step base target ≤ max (target + step - 1) (base + step) := by
  unfold firstAfter
  split_ifs with h
  · have := (ceil_mul_bounds hs (target - (base + step))).2
    omega
  · omega

lemma exists_firstAfter_eq (step base target : ℕ) :
    ∃ k, firstAfter step base target = base + step * (k + 1) := by
  unfold firstAfter
  split_ifs
  · exact ⟨(target - (base + step) + step - 1) / step, by ring⟩
  · exact ⟨0, by ring⟩

lemma firstAfter_sub_mod : (firstAfter step base target - base) % step = 0 := by
  obtain ⟨k, hk⟩ := exists_firstAfter_eq step base target
  rw [hk, Nat.add_sub_cancel_left, Nat.mul_mod_right]

lemma firstAfter_add_sub_mod (j : ℕ) :
    (firstAfter step base target + step * j - base) % step = 0 := by
  obtain ⟨k, hk⟩ := exists_firstAfter_eq step base target
  have : base + step * (k + 1) + step * j - base = step * (k + 1 + j) := by
    rw [Nat.add_assoc, Nat.add_sub_cancel_left]
    ring
  rw [hk, this, Nat.mul_mod_right]

lemma firstAfter_le (hs : 0 < step) (hm : base < m) (hmod : (m - base) % step = 0)
    (ht : target ≤ m) : firstAfter step base target ≤ m := by
  obtain ⟨j, hj⟩ : ∃ j, m = base + step * (j + 1) := by
    obtain ⟨q, hq⟩ := Nat.dvd_of_mod_eq_zero hmod
    obtain ⟨j, rfl⟩ : ∃ j, q = j + 1 := Nat.exists_eq_succ_of_ne_zero (by
      rintro rfl
      omega)
    exact ⟨j, by omega⟩
  unfold firstAfter
  split_ifs with h
  · have hle : target - (base + step) ≤ step * j := by
      have : step * (j + 1) = step * j + step := by ring
      omega
    have hq := ceil_div_le_of_le_mul hs hle
    have : (target - (base + step) + step - 1) / step * step ≤ j * step :=
      Nat.mul_le_mul_right step hq
    have : step * (j + 1) = j * step + step := by ring
    omega
  · have : step ≤ step * (j + 1) := Nat.le_mul_of_pos_right step (Nat.succ_pos j)
    omega

lemma exists_eq_firstAfter_add (hs : 0 < step) (hm : base < m) (hmod : (m - base) % step = 0)
    (ht : target ≤ m) : ∃ j, m = firstAfter step base target + step * j := by
  have hle : firstAfter step base target ≤ m := firstAfter_le hs hm hmod ht
  have hlt : base < firstAfter step base target := lt_firstAfter hs
  obtain ⟨j, hj⟩ : step ∣ (m - base) - (firstAfter step base target - base) :=
    Nat.dvd_sub (Nat.dvd_of_mod_eq_zero hmod) (Nat.dvd_of_mod_eq_zero firstAfter_sub_mod)
  exact ⟨j, by omega⟩

lemma exists_add_mod_eq {n j : ℕ} (k : ℕ) (hj : j < n) : ∃ i < n, (k + i) % n = j := by
  have hk : k % n < n := Nat.mod_lt _ (by omega)
  refine ⟨(j + (n - k % n)) % n, Nat.mod_lt _ (by omega), ?_⟩
  rw [Nat.add_mod, Nat.mod_mod, Nat.add_mod_mod, show k % n + (j + (n - k % n)) = j + n by omega,
    Nat.add_mod_right, Nat.mod_eq_of_lt hj]

end Grid
