import AuthorityBlock.Ablock.Types
import AuthorityBlock.Lib.Word

/-! `tx.Clause` and the intrinsic gas of a transaction, `IntrinsicGas` and `dataGas` in
`tx/transaction.go`. Every `uint64` step of the code is a checked one, so the result is the
exact integer cost whenever that fits a word and the overflow error otherwise: the running
total of the loop is the exact partial sum at every clause (`intrinsicGasLoop_eq`). -/

namespace AuthorityBlock.Tx

open Word

/-- `tx.Clause`: the recipient, `none` for a contract creation, and the call data. The value is
left out, as no modelled function reads it; a Go slice is shorter than `2 ^ 63`. -/
structure Clause where
  To : Option Address
  Data : List UInt8
  length_data_lt : Data.length < 2 ^ 63

def Clause.IsCreatingContract (c : Clause) : Bool := c.To.isNone

def errIntrinsicGasOverflow : String := "intrinsic gas overflow"

/-- One pass of the byte loop of `dataGas`: a zero byte counts in the first counter, any
other in the second. -/
def countStep (acc : UInt64 × UInt64) (byt : UInt8) : UInt64 × UInt64 :=
  if byt = 0 then (acc.1 + 1, acc.2) else (acc.1, acc.2 + 1)

/-- The loop of `dataGas` counting the zero and the non-zero bytes. -/
def countBytes (data : List UInt8) : UInt64 × UInt64 := data.foldl countStep (0, 0)

def dataGas (data : List UInt8) : Except String UInt64 :=
  if data.length = 0 then .ok 0 else
  let (z, nz) := countBytes data
  let (zgas, overflow) := safeMul Params.TxDataZeroGas z
  if overflow then .error errIntrinsicGasOverflow else
  let (nzgas, overflow) := safeMul Params.TxDataNonZeroGas nz
  if overflow then .error errIntrinsicGasOverflow else
  let (gas, overflow) := safeAdd zgas nzgas
  if overflow then .error errIntrinsicGasOverflow else .ok gas

/-- The loop of `IntrinsicGas` over the clauses, from the running total. -/
def intrinsicGasLoop (total : UInt64) : List Clause → Except String UInt64
  | [] => .ok total
  | c :: cs =>
    match dataGas c.Data with
    | .error err => .error err
    | .ok gas =>
      let (total, overflow) := safeAdd total gas
      if overflow then .error errIntrinsicGasOverflow else
      let cgas := if c.IsCreatingContract then ClauseGasContractCreation else ClauseGas
      let (total, overflow) := safeAdd total cgas
      if overflow then .error errIntrinsicGasOverflow else
      intrinsicGasLoop total cs

def IntrinsicGas (clauses : List Clause) : Except String UInt64 :=
  if clauses.length = 0 then .ok (TxGas + ClauseGas) else intrinsicGasLoop TxGas clauses

/-! ### The exact costs -/

/-- The zero bytes of call data. -/
def zeroBytes (data : List UInt8) : ℕ := data.count 0

/-- The non-zero bytes of call data. -/
def nonZeroBytes (data : List UInt8) : ℕ := data.countP (· ≠ 0)

@[simp] lemma zeroBytes_nil : zeroBytes [] = 0 := rfl

@[simp] lemma nonZeroBytes_nil : nonZeroBytes [] = 0 := rfl

lemma zeroBytes_cons (byt : UInt8) (data : List UInt8) :
    zeroBytes (byt :: data) = zeroBytes data + if byt = 0 then 1 else 0 := by
  unfold zeroBytes
  by_cases hb : byt = 0
  · rw [hb, List.count_cons_self, if_pos rfl]
  · rw [List.count_cons_of_ne hb, if_neg hb, Nat.add_zero]

lemma nonZeroBytes_cons (byt : UInt8) (data : List UInt8) :
    nonZeroBytes (byt :: data) = nonZeroBytes data + if byt = 0 then 0 else 1 := by
  unfold nonZeroBytes
  by_cases hb : byt = 0 <;> simp [hb]

/-- The exact cost of a clause: four per zero byte, sixty-eight per other byte, and the
clause's own gas. -/
def exactClauseGas (c : Clause) : ℕ :=
  4 * zeroBytes c.Data + 68 * nonZeroBytes c.Data +
    (if c.To = none then ClauseGasContractCreation else ClauseGas).toNat

/-- An exact amount as the code returns it: the word, or the overflow error. -/
def checkedGas (n : ℕ) : Except String UInt64 :=
  if n < 2 ^ 64 then .ok n.toUInt64 else .error errIntrinsicGasOverflow

lemma checkedGas_of_le {n : ℕ} (h : 2 ^ 64 ≤ n) : checkedGas n = .error errIntrinsicGasOverflow :=
  if_neg (Nat.not_lt.mpr h)

lemma checkedGas_of_lt {n : ℕ} (h : n < 2 ^ 64) : checkedGas n = .ok n.toUInt64 := if_pos h

lemma foldl_countStep (data : List UInt8) (z nz : UInt64)
    (h : z.toNat + nz.toNat + data.length < 2 ^ 64) :
    (data.foldl countStep (z, nz)).1.toNat = z.toNat + zeroBytes data ∧
    (data.foldl countStep (z, nz)).2.toNat = nz.toNat + nonZeroBytes data := by
  induction data generalizing z nz with
  | nil => simp
  | cons byt data ih =>
    rw [List.length_cons] at h
    rw [List.foldl_cons, zeroBytes_cons, nonZeroBytes_cons]
    by_cases hb : byt = 0
    · -- a zero byte moves the first counter, which stays below the word's bound
      have hz : (z + 1).toNat = z.toNat + 1 := toNat_add_of_lt (by simp; omega)
      obtain ⟨h1, h2⟩ := ih (z + 1) nz (by omega)
      rw [show countStep (z, nz) byt = (z + 1, nz) from if_pos hb, h1, h2, hz, if_pos hb,
        if_pos hb]
      omega
    · have hnz : (nz + 1).toNat = nz.toNat + 1 := toNat_add_of_lt (by simp; omega)
      obtain ⟨h1, h2⟩ := ih z (nz + 1) (by omega)
      rw [show countStep (z, nz) byt = (z, nz + 1) from if_neg hb, h1, h2, hnz, if_neg hb,
        if_neg hb]
      omega

lemma countBytes_toNat (data : List UInt8) (h : data.length < 2 ^ 64) :
    (countBytes data).1.toNat = zeroBytes data ∧
    (countBytes data).2.toNat = nonZeroBytes data := by
  have := foldl_countStep data 0 0 (by simpa using h)
  simpa [countBytes] using this

lemma dataGas_eq (data : List UInt8) (h : data.length < 2 ^ 64) :
    dataGas data = checkedGas (4 * zeroBytes data + 68 * nonZeroBytes data) := by
  unfold dataGas
  split_ifs with hlen
  · -- no bytes: both counts are zero
    rw [List.length_eq_zero_iff] at hlen
    subst hlen
    rfl
  obtain ⟨hz, hnz⟩ := countBytes_toNat data h
  rcases hcount : countBytes data with ⟨z, nz⟩
  rw [hcount] at hz hnz
  dsimp only at hz hnz ⊢
  have h4 : Params.TxDataZeroGas.toNat = 4 := rfl
  have h68 : Params.TxDataNonZeroGas.toNat = 68 := rfl
  -- each checked operation fails exactly when its exact result leaves the word
  by_cases hzo : 2 ^ 64 ≤ 4 * zeroBytes data
  · rw [safeMul_of_le (by rw [h4, hz]; exact hzo), checkedGas_of_le (by omega)]
    rfl
  rw [safeMul_of_lt (by rw [h4, hz]; omega)]
  by_cases hnzo : 2 ^ 64 ≤ 68 * nonZeroBytes data
  · rw [safeMul_of_le (by rw [h68, hnz]; exact hnzo), checkedGas_of_le (by omega)]
    rfl
  rw [safeMul_of_lt (by rw [h68, hnz]; omega)]
  have hzgas : (Params.TxDataZeroGas * z).toNat = 4 * zeroBytes data := by
    rw [toNat_mul_of_lt (by rw [h4, hz]; omega), h4, hz]
  have hnzgas : (Params.TxDataNonZeroGas * nz).toNat = 68 * nonZeroBytes data := by
    rw [toNat_mul_of_lt (by rw [h68, hnz]; omega), h68, hnz]
  by_cases hso : 2 ^ 64 ≤ 4 * zeroBytes data + 68 * nonZeroBytes data
  · rw [safeAdd_of_le (by rw [hzgas, hnzgas]; exact hso), checkedGas_of_le hso]
    rfl
  rw [safeAdd_of_lt (by rw [hzgas, hnzgas]; omega), checkedGas_of_lt (by omega)]
  simp only [Bool.false_eq_true, if_false, Except.ok.injEq]
  rw [← UInt64.toNat_inj, toNat_add_of_lt (by rw [hzgas, hnzgas]; omega), hzgas, hnzgas,
    natCast_toNat_of_lt (by omega)]

lemma isCreatingContract_iff (c : Clause) : c.IsCreatingContract = true ↔ c.To = none :=
  Option.isNone_iff_eq_none

lemma intrinsicGasLoop_eq (total : UInt64) (cs : List Clause) :
    intrinsicGasLoop total cs = checkedGas (total.toNat + (cs.map exactClauseGas).sum) := by
  induction cs generalizing total with
  | nil =>
    rw [List.map_nil, List.sum_nil, Nat.add_zero, checkedGas_of_lt total.toNat_lt]
    exact congrArg Except.ok UInt64.ofNat_toNat.symm
  | cons c cs ih =>
    rw [List.map_cons, List.sum_cons]
    have hcgas : exactClauseGas c = 4 * zeroBytes c.Data + 68 * nonZeroBytes c.Data +
        (if c.IsCreatingContract then ClauseGasContractCreation else ClauseGas).toNat := by
      unfold exactClauseGas
      by_cases hc : c.To = none
      · rw [if_pos hc, if_pos ((isCreatingContract_iff c).mpr hc)]
      · rw [if_neg hc, if_neg (mt (isCreatingContract_iff c).mp hc)]
    have hd := dataGas_eq c.Data (by have := c.length_data_lt; omega)
    rw [hcgas, intrinsicGasLoop, hd]
    dsimp only
    -- the data part `d` and the clause's own part `cgas` of the clause's gas
    generalize 4 * zeroBytes c.Data + 68 * nonZeroBytes c.Data = d
    generalize (if c.IsCreatingContract then ClauseGasContractCreation else ClauseGas) = cgas
    by_cases hdo : 2 ^ 64 ≤ d
    · -- the data gas alone overflows, and with it the whole sum
      rw [checkedGas_of_le hdo, checkedGas_of_le (by omega)]
    have hgas := natCast_toNat_of_lt (Nat.lt_of_not_le hdo)
    rw [checkedGas_of_lt (Nat.lt_of_not_le hdo)]
    dsimp only
    by_cases h1 : 2 ^ 64 ≤ total.toNat + d
    · rw [safeAdd_of_le (by rw [hgas]; exact h1), checkedGas_of_le (by omega)]
      rfl
    have htotal : (total + d.toUInt64).toNat = total.toNat + d := by
      rw [toNat_add_of_lt (by rw [hgas]; omega), hgas]
    rw [safeAdd_of_lt (by rw [hgas]; omega)]
    dsimp only
    by_cases h2 : 2 ^ 64 ≤ total.toNat + d + cgas.toNat
    · rw [safeAdd_of_le (by rw [htotal]; exact h2), checkedGas_of_le (by omega)]
      rfl
    rw [safeAdd_of_lt (by rw [htotal]; omega)]
    simp only [Bool.false_eq_true, if_false]
    rw [ih, toNat_add_of_lt (by rw [htotal]; omega), htotal, Nat.add_assoc, Nat.add_assoc,
      Nat.add_assoc]

theorem intrinsicGas_exact (clauses : List Clause) :
    (TxGas + ClauseGas).toNat = TxGas.toNat + ClauseGas.toNat ∧
    IntrinsicGas clauses =
      if clauses = [] then .ok (TxGas + ClauseGas)
      else if TxGas.toNat + (clauses.map exactClauseGas).sum < 2 ^ 64 then
        .ok (TxGas.toNat + (clauses.map exactClauseGas).sum).toUInt64
      else .error errIntrinsicGasOverflow := by
  refine ⟨toNat_add_of_lt (by decide), ?_⟩
  unfold IntrinsicGas
  by_cases hnil : clauses = []
  · rw [if_pos (List.length_eq_zero_iff.mpr hnil), if_pos hnil]
  · rw [if_neg (mt List.length_eq_zero_iff.mp hnil), if_neg hnil, intrinsicGasLoop_eq]
    rfl

end AuthorityBlock.Tx
