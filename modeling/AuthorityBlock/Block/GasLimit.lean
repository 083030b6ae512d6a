import AuthorityBlock.Ablock.Types
import AuthorityBlock.Lib.Word
import Mathlib

/-! The model of `block/gas_limit.go`: the window of gas limits a block may take after its
parent's, and the adjustment the packer makes towards a target. `Adjust` takes an `int64`
delta, and `Qualify` converts a difference already capped by `parent / 1024` to it. -/

namespace AuthorityBlock.Block

def min64 (a b : UInt64) : UInt64 := if a > b then b else a

namespace GasLimit

def isValid (gl parentGasLimit : UInt64) : Bool :=
  if gl < MinGasLimit then false
  else
    let diff := if gl > parentGasLimit then gl - parentGasLimit else parentGasLimit - gl
    diff ≤ parentGasLimit / GasLimitBoundDivisor

/-- `Adjust`, on the receiver as the parent's gas limit. -/
def adjust (gl : UInt64) (delta : Int64) : UInt64 :=
  let maxDiff := gl / GasLimitBoundDivisor
  if delta > 0 then
    let diff := min64 delta.toUInt64 maxDiff
    -- overflow case
    if 18446744073709551615 - diff < gl then 18446744073709551615 else gl + diff
  else
    let diff := min64 (-delta).toUInt64 maxDiff
    -- reach floor
    if MinGasLimit + diff > gl then MinGasLimit else gl - diff

def qualify (gl parentGasLimit : UInt64) : UInt64 :=
  let maxDiff := parentGasLimit / GasLimitBoundDivisor
  if gl > parentGasLimit then
    adjust parentGasLimit (min64 (gl - parentGasLimit) maxDiff).toInt64
  else adjust parentGasLimit (-(min64 (parentGasLimit - gl) maxDiff).toInt64)

end GasLimit

/-! ## The window of valid gas limits -/

lemma toNat_min64 (a b : UInt64) : (min64 a b).toNat = min a.toNat b.toNat := by
  unfold min64
  split_ifs with h
  · rw [gt_iff_lt, UInt64.lt_iff_toNat_lt] at h
    omega
  · rw [gt_iff_lt, UInt64.lt_iff_toNat_lt] at h
    omega

lemma minGasLimit_toNat : MinGasLimit.toNat = 1000000 := rfl

lemma gasLimitBoundDivisor_toNat : GasLimitBoundDivisor.toNat = 1024 := rfl

/-- The lowest gas limit valid after `p`. -/
def lowerBound (p : UInt64) : ℕ := max MinGasLimit.toNat (p.toNat - p.toNat / 1024)

/-- The highest gas limit valid after `p`. -/
def upperBound (p : UInt64) : ℕ := min (2 ^ 64 - 1) (p.toNat + p.toNat / 1024)

lemma isValid_iff (g p : UInt64) :
    GasLimit.isValid g p = true ↔ lowerBound p ≤ g.toNat ∧ g.toNat ≤ upperBound p := by
  have hg := g.toNat_lt
  have hdiv : (p / GasLimitBoundDivisor).toNat = p.toNat / 1024 := by
    rw [UInt64.toNat_div, gasLimitBoundDivisor_toNat]
  unfold GasLimit.isValid lowerBound upperBound
  simp only [UInt64.lt_iff_toNat_lt, minGasLimit_toNat, gt_iff_lt]
  split_ifs with hmin hgt
  · simp only [false_iff, not_and, not_le]
    omega
  · rw [decide_eq_true_iff, UInt64.le_iff_toNat_le, hdiv,
      Word.toNat_sub_of_toNat_le (by omega)]
    omega
  · rw [decide_eq_true_iff, UInt64.le_iff_toNat_le, hdiv,
      Word.toNat_sub_of_toNat_le (by omega)]
    omega

/-! ## `Adjust` stays in the window -/

section Adjust

variable {p : UInt64}

lemma adjust_of_pos {delta : Int64} (h : delta > 0) :
    (GasLimit.adjust p delta).toNat =
      min (2 ^ 64 - 1) (p.toNat + min delta.toUInt64.toNat (p.toNat / 1024)) := by
  have hp := p.toNat_lt
  have hdiff : (min64 delta.toUInt64 (p / GasLimitBoundDivisor)).toNat =
      min delta.toUInt64.toNat (p.toNat / 1024) := by
    rw [toNat_min64, UInt64.toNat_div, gasLimitBoundDivisor_toNat]
  have hle : min delta.toUInt64.toNat (p.toNat / 1024) ≤ p.toNat / 1024 := min_le_right _ _
  have hmax : (18446744073709551615 : UInt64).toNat = 2 ^ 64 - 1 := rfl
  unfold GasLimit.adjust
  simp only [if_pos h]
  split_ifs with hover
  · rw [UInt64.lt_iff_toNat_lt, Word.toNat_sub_of_toNat_le (by rw [hdiff]; omega), hdiff]
      at hover
    rw [hmax]
    omega
  · rw [UInt64.lt_iff_toNat_lt, Word.toNat_sub_of_toNat_le (by rw [hdiff]; omega), hdiff]
      at hover
    rw [Word.toNat_add_of_lt (by rw [hdiff]; omega), hdiff]
    omega

lemma adjust_of_nonpos {delta : Int64} (h : ¬ delta > 0) (hp : MinGasLimit ≤ p) :
    (GasLimit.adjust p delta).toNat =
      max 1000000 (p.toNat - min (-delta).toUInt64.toNat (p.toNat / 1024)) := by
  have hmin : 1000000 ≤ p.toNat := by rwa [UInt64.le_iff_toNat_le, minGasLimit_toNat] at hp
  have hlt := p.toNat_lt
  have hdiff : (min64 (-delta).toUInt64 (p / GasLimitBoundDivisor)).toNat =
      min (-delta).toUInt64.toNat (p.toNat / 1024) := by
    rw [toNat_min64, UInt64.toNat_div, gasLimitBoundDivisor_toNat]
  have hle : min (-delta).toUInt64.toNat (p.toNat / 1024) ≤ p.toNat / 1024 := min_le_right _ _
  unfold GasLimit.adjust
  simp only [if_neg h]
  split_ifs with hfloor
  · rw [gt_iff_lt, UInt64.lt_iff_toNat_lt, Word.toNat_add_of_lt
      (by rw [hdiff, minGasLimit_toNat]; omega), hdiff, minGasLimit_toNat] at hfloor
    rw [minGasLimit_toNat]
    omega
  · rw [gt_iff_lt, UInt64.lt_iff_toNat_lt, Word.toNat_add_of_lt
      (by rw [hdiff, minGasLimit_toNat]; omega), hdiff, minGasLimit_toNat] at hfloor
    rw [Word.toNat_sub_of_toNat_le (by rw [hdiff]; omega), hdiff]
    omega

lemma isValid_adjust (hp : MinGasLimit ≤ p) (delta : Int64) :
    GasLimit.isValid (GasLimit.adjust p delta) p = true := by
  have hmin : 1000000 ≤ p.toNat := by rwa [UInt64.le_iff_toNat_le, minGasLimit_toNat] at hp
  have hlt := p.toNat_lt
  rw [isValid_iff, lowerBound, upperBound, minGasLimit_toNat]
  by_cases h : delta > 0
  · rw [adjust_of_pos h]
    omega
  · rw [adjust_of_nonpos h hp]
    omega

end Adjust

/-! ## `Qualify` is the valid gas limit closest to the target -/

lemma toInt64_pos_iff {x : UInt64} (h : x.toNat < 2 ^ 63) : x.toInt64 > 0 ↔ 0 < x.toNat := by
  rw [gt_iff_lt, Int64.lt_iff_toInt_lt, Word.toInt_toInt64_of_lt h, Int64.toInt_zero]
  omega

lemma not_neg_toInt64_pos {x : UInt64} (h : x.toNat < 2 ^ 63) : ¬ -x.toInt64 > 0 := by
  rw [gt_iff_lt, Int64.lt_iff_toInt_lt, Int64.toInt_neg, Word.toInt_toInt64_of_lt h]
  simp only [Int64.toInt_zero, Int.bmod]
  split_ifs <;> omega

lemma qualify_eq_clamp (t p : UInt64) (hp : MinGasLimit ≤ p) :
    (GasLimit.qualify t p).toNat = max (lowerBound p) (min t.toNat (upperBound p)) := by
  have hmin : 1000000 ≤ p.toNat := by rwa [UInt64.le_iff_toNat_le, minGasLimit_toNat] at hp
  have hlt := p.toNat_lt
  have hdiv : (p / GasLimitBoundDivisor).toNat = p.toNat / 1024 := by
    rw [UInt64.toNat_div, gasLimitBoundDivisor_toNat]
  unfold GasLimit.qualify lowerBound upperBound
  rw [minGasLimit_toNat]
  split_ifs with hgt
  · -- a step up by the capped difference, which is positive
    rw [gt_iff_lt, UInt64.lt_iff_toNat_lt] at hgt
    have hd : (min64 (t - p) (p / GasLimitBoundDivisor)).toNat =
        min (t.toNat - p.toNat) (p.toNat / 1024) := by
      rw [toNat_min64, Word.toNat_sub_of_toNat_le hgt.le, hdiv]
    have hpos : (min64 (t - p) (p / GasLimitBoundDivisor)).toInt64 > 0 :=
      (toInt64_pos_iff (by omega)).mpr (by omega)
    rw [adjust_of_pos hpos, UInt64.toUInt64_toInt64, hd]
    omega
  · -- a step down by the capped difference, never an increase
    rw [gt_iff_lt, UInt64.lt_iff_toNat_lt] at hgt
    have hd : (min64 (p - t) (p / GasLimitBoundDivisor)).toNat =
        min (p.toNat - t.toNat) (p.toNat / 1024) := by
      rw [toNat_min64, Word.toNat_sub_of_toNat_le (by omega), hdiv]
    rw [adjust_of_nonpos (not_neg_toInt64_pos (by omega)) hp, Int64.neg_neg,
      UInt64.toUInt64_toInt64, hd]
    omega

/-- For a parent's gas limit of at least `MinGasLimit` and any target, `Qualify` is valid after
the parent and is the valid value closest to the target, the target clamped to the window
`[max(MinGasLimit, p - p/1024), min(2^64 - 1, p + p/1024)]`; and `Adjust` by any delta is valid
after the parent. -/
theorem qualify_valid_closest (t p : UInt64) (hp : MinGasLimit ≤ p) :
    GasLimit.isValid (GasLimit.qualify t p) p = true ∧
    (GasLimit.qualify t p).toNat = max (max MinGasLimit.toNat (p.toNat - p.toNat / 1024))
      (min t.toNat (min (2 ^ 64 - 1) (p.toNat + p.toNat / 1024))) ∧
    (∀ g : UInt64, GasLimit.isValid g p = true →
      |((GasLimit.qualify t p).toNat : ℤ) - t.toNat| ≤ |(g.toNat : ℤ) - t.toNat|) ∧
    ∀ delta : Int64, GasLimit.isValid (GasLimit.adjust p delta) p = true := by
  have hq := qualify_eq_clamp t p hp
  have hmin : 1000000 ≤ p.toNat := by rwa [UInt64.le_iff_toNat_le, minGasLimit_toNat] at hp
  have hlt := p.toNat_lt
  have hwin : lowerBound p ≤ upperBound p := by
    unfold lowerBound upperBound
    rw [minGasLimit_toNat]
    omega
  refine ⟨?_, hq, fun g hg => ?_, isValid_adjust hp⟩
  · rw [isValid_iff, hq]
    omega
  · rw [isValid_iff] at hg
    rw [hq]
    -- the clamped target is the target, or the end of the window nearer to it
    rcases le_total t.toNat (lowerBound p) with hlo | hlo
    · have hc : max (lowerBound p) (min t.toNat (upperBound p)) = lowerBound p := by omega
      rw [hc, abs_of_nonneg (by omega), abs_of_nonneg (by omega)]
      omega
    · rcases le_total t.toNat (upperBound p) with hhi | hhi
      · have hc : max (lowerBound p) (min t.toNat (upperBound p)) = t.toNat := by omega
        rw [hc, sub_self, abs_zero]
        exact abs_nonneg _
      · have hc : max (lowerBound p) (min t.toNat (upperBound p)) = upperBound p := by omega
        rw [hc, abs_of_nonpos (by omega), abs_of_nonpos (by omega)]
        omega

theorem qualify_valid_closest_at_floor :
    MinGasLimit ≤ 1000000 ∧
    GasLimit.isValid (GasLimit.qualify 0 1000000) 1000000 = true ∧
    (GasLimit.qualify 0 1000000).toNat = max (max MinGasLimit.toNat
      ((1000000 : UInt64).toNat - (1000000 : UInt64).toNat / 1024))
      (min (0 : UInt64).toNat (min (2 ^ 64 - 1)
        ((1000000 : UInt64).toNat + (1000000 : UInt64).toNat / 1024))) ∧
    (∀ g : UInt64, GasLimit.isValid g 1000000 = true →
      |((GasLimit.qualify 0 1000000).toNat : ℤ) - (0 : UInt64).toNat| ≤
        |(g.toNat : ℤ) - (0 : UInt64).toNat|) ∧
    ∀ delta : Int64, GasLimit.isValid (GasLimit.adjust 1000000 delta) 1000000 = true :=
  ⟨by decide, qualify_valid_closest 0 1000000 (by decide)⟩

end AuthorityBlock.Block
