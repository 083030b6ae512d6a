import Mathlib

/-! Machine words read as natural numbers: `UInt64` arithmetic agrees with `ℕ` while no
operation wraps. -/

namespace Word

lemma toNat_add_of_lt {a b : UInt64} (h : a.toNat + b.toNat < 2 ^ 64) :
    (a + b).toNat = a.toNat + b.toNat := by
  rw [UInt64.toNat_add, Nat.mod_eq_of_lt h]

lemma toNat_mul_of_lt {a b : UInt64} (h : a.toNat * b.toNat < 2 ^ 64) :
    (a * b).toNat = a.toNat * b.toNat := by
  rw [UInt64.toNat_mul, Nat.mod_eq_of_lt h]

lemma toNat_sub_of_toNat_le {a b : UInt64} (h : b.toNat ≤ a.toNat) :
    (a - b).toNat = a.toNat - b.toNat :=
  UInt64.toNat_sub_of_le a b (UInt64.le_iff_toNat_le.mpr h)

lemma natCast_toNat_of_lt {n : ℕ} (h : n < 2 ^ 64) : n.toUInt64.toNat = n := by
  rw [Nat.toUInt64_eq, UInt64.toNat_ofNat', Nat.mod_eq_of_lt h]

/-! ### Words read as signed -/

lemma toInt_toInt64_of_lt {x : UInt64} (h : x.toNat < 2 ^ 63) : x.toInt64.toInt = x.toNat := by
  rw [Int64.toInt, UInt64.toBitVec_toInt64, BitVec.toInt_eq_toNat_cond]
  simp only [UInt64.toNat_toBitVec]
  split_ifs with h2
  · rfl
  · omega

lemma toInt_toInt64_le (x : UInt64) : x.toInt64.toInt ≤ x.toNat := by
  rw [Int64.toInt, UInt64.toBitVec_toInt64, BitVec.toInt_eq_toNat_cond]
  simp only [UInt64.toNat_toBitVec]
  split_ifs <;> omega

/-! ### Checked arithmetic

The checked operations of go-ethereum's `common/math`: the wrapped result and whether the exact
result left the word. -/

/-- `math.MaxUint64`. -/
def MaxUint64 : UInt64 := 18446744073709551615

/-- `math.SafeAdd`. -/
def safeAdd (x y : UInt64) : UInt64 × Bool := (x + y, y > MaxUint64 - x)

/-- `math.SafeMul`. -/
def safeMul (x y : UInt64) : UInt64 × Bool :=
  if x = 0 ∨ y = 0 then (0, false) else (x * y, y > MaxUint64 / x)

lemma maxUint64_toNat : MaxUint64.toNat = 2 ^ 64 - 1 := rfl

lemma safeAdd_overflow_iff (x y : UInt64) :
    (safeAdd x y).2 = true ↔ 2 ^ 64 ≤ x.toNat + y.toNat := by
  have hx := x.toNat_lt
  have hsub : (MaxUint64 - x).toNat = 2 ^ 64 - 1 - x.toNat := by
    rw [toNat_sub_of_toNat_le (by rw [maxUint64_toNat]; omega), maxUint64_toNat]
  simp only [safeAdd, decide_eq_true_eq, UInt64.lt_iff_toNat_lt, hsub]
  omega

lemma safeMul_overflow_iff (x y : UInt64) :
    (safeMul x y).2 = true ↔ 2 ^ 64 ≤ x.toNat * y.toNat := by
  unfold safeMul
  split_ifs with h0
  · -- a zero factor: the product is zero, far from the bound
    have hz : x.toNat * y.toNat = 0 := by
      rcases h0 with rfl | rfl <;> simp
    simp [hz]
  · have hx : 0 < x.toNat := by
      rw [Nat.pos_iff_ne_zero, Ne, ← UInt64.toNat_zero, UInt64.toNat_inj]
      exact fun h => h0 (Or.inl h)
    have hdiv : (MaxUint64 / x).toNat = (2 ^ 64 - 1) / x.toNat := by
      rw [UInt64.toNat_div, maxUint64_toNat]
    simp only [decide_eq_true_eq, UInt64.lt_iff_toNat_lt, hdiv, Nat.div_lt_iff_lt_mul hx]
    rw [Nat.mul_comm y.toNat]
    omega

lemma safeAdd_eq (x y : UInt64) : safeAdd x y = (x + y, decide (2 ^ 64 ≤ x.toNat + y.toNat)) := by
  refine Prod.ext rfl ?_
  rw [Bool.eq_iff_iff, safeAdd_overflow_iff, decide_eq_true_eq]

lemma safeMul_eq (x y : UInt64) : safeMul x y = (x * y, decide (2 ^ 64 ≤ x.toNat * y.toNat)) := by
  refine Prod.ext ?_ ?_
  · -- with a zero factor the code returns the literal zero, which is the product
    unfold safeMul
    split_ifs with h0
    · rcases h0 with rfl | rfl <;> simp
    · rfl
  · rw [Bool.eq_iff_iff, safeMul_overflow_iff, decide_eq_true_eq]

lemma safeAdd_of_lt {x y : UInt64} (h : x.toNat + y.toNat < 2 ^ 64) : safeAdd x y = (x + y, false) := by
  rw [safeAdd_eq, decide_eq_false (Nat.not_le.mpr h)]

lemma safeAdd_of_le {x y : UInt64} (h : 2 ^ 64 ≤ x.toNat + y.toNat) : safeAdd x y = (x + y, true) := by
  rw [safeAdd_eq, decide_eq_true h]

lemma safeMul_of_lt {x y : UInt64} (h : x.toNat * y.toNat < 2 ^ 64) : safeMul x y = (x * y, false) := by
  rw [safeMul_eq, decide_eq_false (Nat.not_le.mpr h)]

lemma safeMul_of_le {x y : UInt64} (h : 2 ^ 64 ≤ x.toNat * y.toNat) : safeMul x y = (x * y, true) := by
  rw [safeMul_eq, decide_eq_true h]

end Word
