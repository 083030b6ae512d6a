import Mathlib
import AuthorityBlock.Ablock.Types
import AuthorityBlock.Lib.Word

/-! The prices of a transaction, `GasPrice` and `OverallGasPrice` in `tx/transaction.go`, and
the exchange of proved work for gas, `workToGas` in `tx/work_eval.go`. A `big.Int` is an
integer; Go's `Div` is Euclidean division, as `/` on `ℤ` is. Each word computation is first read
back as a formula on natural numbers (`toNat_workToGas`, `overallGasPrice_eq`), and the bounds
and monotonicity are proved of the formulas. -/

namespace AuthorityBlock.Tx

open Word

/-- What the prices read of a transaction body. -/
structure Body where
  BlockRef : UInt64
  Gas : UInt64
  GasPriceCoef : UInt8

/-- `BlockRef.Number`: the first four bytes of the big-endian reference, its high word. -/
def BlockRef.Number (br : UInt64) : UInt32 := (br >>> 32).toUInt32

def GasPrice (t : Body) (baseGasPrice : ℤ) : ℤ :=
  (t.GasPriceCoef.toNat : ℤ) * baseGasPrice / 255 + baseGasPrice

def workPerGas : ℤ := 1000

/-- `workToGas`. The month count is the code's `uint64` product, which a `uint32` block number
cannot make wrap; `BitLen() > 64` and `Uint64()` read the magnitude. -/
def workToGas (work : ℤ) (blockNum : UInt32) : UInt64 :=
  let gas := work / workPerGas
  if gas = 0 then 0
  else
    let months := (blockNum.toUInt64 * BlockInterval / 3600 / 24 / 30).toNat
    let gas := if months ≠ 0 then gas * 100 ^ months / 104 ^ months else gas
    if 64 < gas.natAbs.size then MaxUint64 else gas.natAbs.toUInt64

/-- `OverallGasPrice`. A zero `Gas` is a division by zero in Go, which panics; here it is
`0 / 0 = 0`, and the results below assume a positive `Gas`. -/
def OverallGasPrice (t : Body) (baseGasPrice provedWork : ℤ) : ℤ :=
  let gasPrice := GasPrice t baseGasPrice
  if provedWork = 0 then gasPrice
  else
    let wgas := workToGas provedWork (BlockRef.Number t.BlockRef)
    if wgas = 0 then gasPrice
    else
      let wgas := if wgas > t.Gas then t.Gas else wgas
      (wgas.toNat : ℤ) * baseGasPrice / t.Gas.toNat + gasPrice

/-! ### The exchange on natural numbers -/

/-- The months of Moore's-law decay at a block number. -/
def months (blockNum : UInt32) : ℕ := blockNum.toNat * 10 / 3600 / 24 / 30

/-- The gas left of `gas` after `m` months of decay by `100/104`. -/
def decay (gas m : ℕ) : ℕ := gas * 100 ^ m / 104 ^ m

@[simp] lemma decay_zero_left (m : ℕ) : decay 0 m = 0 := by
  simp [decay]

@[simp] lemma decay_zero_right (gas : ℕ) : decay gas 0 = gas := by
  simp [decay]

lemma decay_mono_left {gas gas' : ℕ} (h : gas ≤ gas') (m : ℕ) : decay gas m ≤ decay gas' m :=
  Nat.div_le_div_right (Nat.mul_le_mul_right _ h)

lemma decay_succ_le (gas m : ℕ) : decay gas (m + 1) ≤ decay gas m := by
  unfold decay
  rw [Nat.pow_succ, Nat.pow_succ, ← Nat.mul_assoc]
  calc gas * 100 ^ m * 100 / (104 ^ m * 104)
      ≤ gas * 100 ^ m * 104 / (104 ^ m * 104) :=
        Nat.div_le_div_right (Nat.mul_le_mul_left _ (by decide))
    _ = gas * 100 ^ m / 104 ^ m := Nat.mul_div_mul_right _ _ (by decide)

lemma decay_antitone (gas : ℕ) : Antitone (decay gas) :=
  antitone_nat_of_succ_le (decay_succ_le gas)

lemma decay_le (gas m : ℕ) : decay gas m ≤ gas :=
  (decay_antitone gas (Nat.zero_le m)).trans_eq (decay_zero_right gas)

lemma toNat_months (blockNum : UInt32) :
    (blockNum.toUInt64 * BlockInterval / 3600 / 24 / 30).toNat = months blockNum := by
  have hb := blockNum.toNat_lt
  rw [UInt64.toNat_div, UInt64.toNat_div, UInt64.toNat_div,
    toNat_mul_of_lt (by rw [UInt32.toNat_toUInt64]; change _ * 10 < _; omega), UInt32.toNat_toUInt64]
  rfl

lemma months_mono {n n' : UInt32} (h : n ≤ n') : months n ≤ months n' :=
  Nat.div_le_div_right (Nat.div_le_div_right (Nat.div_le_div_right
    (Nat.mul_le_mul_right _ (UInt32.le_iff_toNat_le.mp h))))

lemma toNat_saturate (x : ℕ) :
    (if 64 < x.size then MaxUint64 else x.toUInt64).toNat = min x (2 ^ 64 - 1) := by
  split_ifs with h
  · have : 2 ^ 64 ≤ x := Nat.lt_size.mp h
    rw [maxUint64_toNat]
    omega
  · have : x < 2 ^ 64 := Nat.size_le.mp (Nat.le_of_not_lt h)
    rw [natCast_toNat_of_lt this]
    omega

lemma ediv_workPerGas {work : ℤ} (hw : 0 ≤ work) :
    work / workPerGas = ((work.toNat / 1000 : ℕ) : ℤ) := by
  rw [Int.natCast_ediv, Int.toNat_of_nonneg hw]
  rfl

lemma natCast_decay (gas m : ℕ) : (gas : ℤ) * 100 ^ m / 104 ^ m = (decay gas m : ℤ) := by
  simp [decay, Int.natCast_ediv]

lemma toNat_workToGas {work : ℤ} (hw : 0 ≤ work) (blockNum : UInt32) :
    (workToGas work blockNum).toNat =
      min (decay (work.toNat / 1000) (months blockNum)) (2 ^ 64 - 1) := by
  dsimp only [workToGas]
  rw [ediv_workPerGas hw, toNat_months]
  by_cases h0 : work.toNat / 1000 = 0
  · rw [if_pos (by rw [h0]; rfl), h0, decay_zero_left]
    rfl
  rw [if_neg (by exact_mod_cast h0)]
  -- both branches of the month test compute the decay
  have hgas : (if months blockNum ≠ 0 then ((work.toNat / 1000 : ℕ) : ℤ) * 100 ^ months blockNum /
      104 ^ months blockNum else ((work.toNat / 1000 : ℕ) : ℤ)) =
      (decay (work.toNat / 1000) (months blockNum) : ℤ) := by
    split_ifs with hm
    · exact natCast_decay _ _
    · rw [Decidable.not_not.mp hm, decay_zero_right]
  rw [hgas, Int.natAbs_natCast, toNat_saturate]

lemma workToGas_mono_left {work work' : ℤ} (hw : 0 ≤ work) (h : work ≤ work') (blockNum : UInt32) :
    workToGas work blockNum ≤ workToGas work' blockNum := by
  rw [UInt64.le_iff_toNat_le, toNat_workToGas hw, toNat_workToGas (hw.trans h)]
  have := decay_mono_left (Nat.div_le_div_right (c := 1000) (Int.toNat_le_toNat h)) (months blockNum)
  omega

lemma workToGas_anti_right {work : ℤ} (hw : 0 ≤ work) {blockNum blockNum' : UInt32}
    (h : blockNum ≤ blockNum') : workToGas work blockNum' ≤ workToGas work blockNum := by
  rw [UInt64.le_iff_toNat_le, toNat_workToGas hw, toNat_workToGas hw]
  have := decay_antitone (work.toNat / 1000) (months_mono h)
  omega

lemma toNat_workToGas_le {work : ℤ} (hw : 0 ≤ work) (blockNum : UInt32) :
    (workToGas work blockNum).toNat ≤ min (work.toNat / 1000) (2 ^ 64 - 1) := by
  rw [toNat_workToGas hw]
  have := decay_le (work.toNat / 1000) (months blockNum)
  omega

lemma workToGas_zero (blockNum : UInt32) : workToGas 0 blockNum = 0 := by
  simp [workToGas, workPerGas]

/-! ### The prices -/

/-- The work part of the overall price: the exchanged gas, capped at the tx gas, as a share of
the gas, times the base price. -/
def workPrice (t : Body) (baseGasPrice : ℤ) (wgas : ℕ) : ℤ :=
  ((min wgas t.Gas.toNat : ℕ) : ℤ) * baseGasPrice / t.Gas.toNat

section Prices

variable (t : Body) {baseGasPrice : ℤ} (hb : 0 ≤ baseGasPrice)

include hb in
lemma gasPrice_mem : baseGasPrice ≤ GasPrice t baseGasPrice ∧ GasPrice t baseGasPrice ≤ 2 * baseGasPrice := by
  have hc : t.GasPriceCoef.toNat < 256 := t.GasPriceCoef.toNat_lt
  have hle : (t.GasPriceCoef.toNat : ℤ) * baseGasPrice / 255 ≤ baseGasPrice := by
    apply Int.ediv_le_of_le_mul (by decide)
    calc (t.GasPriceCoef.toNat : ℤ) * baseGasPrice ≤ 255 * baseGasPrice :=
          Int.mul_le_mul_of_nonneg_right (by omega) hb
      _ = baseGasPrice * 255 := Int.mul_comm _ _
  have hnn : 0 ≤ (t.GasPriceCoef.toNat : ℤ) * baseGasPrice / 255 :=
    Int.ediv_nonneg (Int.mul_nonneg (Int.natCast_nonneg _) hb) (by decide)
  unfold GasPrice
  omega

lemma overallGasPrice_eq {provedWork : ℤ} (hw : 0 ≤ provedWork) :
    OverallGasPrice t baseGasPrice provedWork = GasPrice t baseGasPrice +
      workPrice t baseGasPrice
        (workToGas provedWork (BlockRef.Number t.BlockRef)).toNat := by
  dsimp only [OverallGasPrice, workPrice]
  by_cases h0 : provedWork = 0
  · subst h0
    simp [workToGas_zero]
  rw [if_neg h0]
  by_cases hz : workToGas provedWork (BlockRef.Number t.BlockRef) = 0
  · simp [hz]
  rw [if_neg hz, Int.add_comm]
  -- the cap is the minimum
  congr 3
  split_ifs with hgt
  · rw [min_eq_right (Nat.le_of_lt (UInt64.lt_iff_toNat_lt.mp hgt))]
  · rw [min_eq_left (UInt64.le_iff_toNat_le.mp (UInt64.not_lt.mp hgt))]

variable (hgas : 0 < t.Gas)

include hb in
lemma workPrice_nonneg (wgas : ℕ) : 0 ≤ workPrice t baseGasPrice wgas :=
  Int.ediv_nonneg (Int.mul_nonneg (Int.natCast_nonneg _) hb) (Int.natCast_nonneg _)

include hgas in
lemma natCast_gas_pos : (0 : ℤ) < t.Gas.toNat := by
  exact_mod_cast UInt64.lt_iff_toNat_lt.mp hgas

include hb hgas in
lemma workPrice_le (wgas : ℕ) : workPrice t baseGasPrice wgas ≤ baseGasPrice := by
  apply Int.ediv_le_of_le_mul (natCast_gas_pos t hgas)
  calc ((min wgas t.Gas.toNat : ℕ) : ℤ) * baseGasPrice ≤ (t.Gas.toNat : ℤ) * baseGasPrice :=
        Int.mul_le_mul_of_nonneg_right (by exact_mod_cast Nat.min_le_right _ _) hb
    _ = baseGasPrice * t.Gas.toNat := Int.mul_comm _ _

include hb hgas in
lemma workPrice_mono {wgas wgas' : ℕ} (h : wgas ≤ wgas') :
    workPrice t baseGasPrice wgas ≤ workPrice t baseGasPrice wgas' :=
  Int.ediv_le_ediv (natCast_gas_pos t hgas)
    (Int.mul_le_mul_of_nonneg_right (by have := h; omega) hb)

end Prices

/-- For a transaction with positive gas, a non-negative base price and non-negative proved work:
the gas price is the base price plus its coefficient's share, between one and two base prices;
the overall price adds at most one base price and grows with the work; and the exchanged gas
grows with the work, shrinks with the block number and is at most a thousandth of the work. -/
theorem gasPrice_workToGas_bounds (t : Body) (hgas : 0 < t.Gas) (baseGasPrice : ℤ)
    (hb : 0 ≤ baseGasPrice) (provedWork : ℤ) (hw : 0 ≤ provedWork) :
    (GasPrice t baseGasPrice = baseGasPrice + baseGasPrice * t.GasPriceCoef.toNat / 255 ∧
      baseGasPrice ≤ GasPrice t baseGasPrice ∧ GasPrice t baseGasPrice ≤ 2 * baseGasPrice) ∧
    (GasPrice t baseGasPrice ≤ OverallGasPrice t baseGasPrice provedWork ∧
      OverallGasPrice t baseGasPrice provedWork ≤ GasPrice t baseGasPrice + baseGasPrice) ∧
    (∀ provedWork', provedWork ≤ provedWork' →
      OverallGasPrice t baseGasPrice provedWork ≤ OverallGasPrice t baseGasPrice provedWork') ∧
    (∀ provedWork' blockNum, provedWork ≤ provedWork' →
      workToGas provedWork blockNum ≤ workToGas provedWork' blockNum) ∧
    (∀ blockNum blockNum' : UInt32, blockNum ≤ blockNum' →
      workToGas provedWork blockNum' ≤ workToGas provedWork blockNum) ∧
    (∀ blockNum, (workToGas provedWork blockNum).toNat ≤ min (provedWork.toNat / 1000) (2 ^ 64 - 1)) := by
  refine ⟨⟨by rw [GasPrice, Int.add_comm, Int.mul_comm], gasPrice_mem t hb⟩, ?_, ?_,
    fun w' n h => workToGas_mono_left hw h n, fun n n' h => workToGas_anti_right hw h,
    toNat_workToGas_le hw⟩
  · rw [overallGasPrice_eq t hw]
    exact ⟨Int.le_add_of_nonneg_right (workPrice_nonneg t hb _),
      Int.add_le_add_left (workPrice_le t hb hgas _) _⟩
  · intro provedWork' h
    rw [overallGasPrice_eq t hw, overallGasPrice_eq t (hw.trans h)]
    exact Int.add_le_add_left (workPrice_mono t hb hgas
      (UInt64.le_iff_toNat_le.mp (workToGas_mono_left hw h _))) _

theorem gasPrice_workToGas_bounds_block100 :
    GasPrice ⟨0x0000006400000000, 21000, 128⟩ 1000000000000000 ≤
        OverallGasPrice ⟨0x0000006400000000, 21000, 128⟩ 1000000000000000 50000000 ∧
      OverallGasPrice ⟨0x0000006400000000, 21000, 128⟩ 1000000000000000 50000000 ≤
        GasPrice ⟨0x0000006400000000, 21000, 128⟩ 1000000000000000 + 1000000000000000 :=
  (gasPrice_workToGas_bounds _ (by decide) _ (by decide) _ (by decide)).2.1

end AuthorityBlock.Tx
