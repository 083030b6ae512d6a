import AuthorityBlock.Ablock.Types
import Mathlib

/-! The model of `state/account.go`: an account as the state keeps it. Its energy is settled at
`blockTime` and grows from then on with its balance, at `EnergyGrowthRate` per token per
second; Go's `big.Int` division is Euclidean, as `Int`'s is. -/

namespace AuthorityBlock.State

structure Account where
  balance : ℤ
  energy : ℤ
  blockTime : UInt64
  master : List UInt8
  codeHash : List UInt8
  storageRoot : List UInt8
deriving DecidableEq

structure AccountMetadata where
  storageID : List UInt8
  storageCommitNum : UInt32
  storageDistinctNum : UInt32
deriving DecidableEq

def emptyAccount : Account := ⟨0, 0, 0, [], [], []⟩

namespace Account

def IsEmpty (a : Account) : Bool :=
  a.balance == 0 && a.energy == 0 && a.master.length == 0 && a.codeHash.length == 0

def calcEnergy (a : Account) (blockTime : UInt64) : ℤ :=
  if a.blockTime = 0 then a.energy
  else if a.balance = 0 then a.energy
  else if blockTime ≤ a.blockTime then a.energy
  else a.energy + (blockTime - a.blockTime).toNat * a.balance * EnergyGrowthRate / 10 ^ 18

/-- The energy grown by `balance` over `blockTime - since` seconds. -/
def growth (balance : ℤ) (since blockTime : UInt64) : ℤ :=
  (blockTime - since).toNat * balance * EnergyGrowthRate / 10 ^ 18

lemma calcEnergy_of_le (a : Account) {blockTime : UInt64} (h : blockTime ≤ a.blockTime) :
    a.calcEnergy blockTime = a.energy := by
  unfold calcEnergy
  split_ifs <;> rfl

lemma calcEnergy_of_lt (a : Account) {blockTime : UInt64} (h0 : a.blockTime ≠ 0)
    (h : a.blockTime < blockTime) :
    a.calcEnergy blockTime = a.energy + growth a.balance a.blockTime blockTime := by
  unfold calcEnergy growth
  rw [if_neg h0]
  by_cases hb : a.balance = 0
  · simp [hb]
  · have hle : ¬ blockTime ≤ a.blockTime := by
      rw [UInt64.le_iff_toNat_le]
      rw [UInt64.lt_iff_toNat_lt] at h
      omega
    rw [if_neg hb, if_neg hle]

lemma isEmpty_iff (a : Account) :
    a.IsEmpty ↔ a.balance = 0 ∧ a.energy = 0 ∧ a.master = [] ∧ a.codeHash = [] := by
  simp [IsEmpty, and_assoc]

lemma calcEnergy_of_isEmpty {a : Account} (h : a.IsEmpty) (blockTime : UInt64) :
    a.calcEnergy blockTime = 0 := by
  obtain ⟨hb, he, -, -⟩ := (isEmpty_iff a).mp h
  simp [calcEnergy, hb, he]

@[simp] lemma emptyAccount_calcEnergy (blockTime : UInt64) :
    emptyAccount.calcEnergy blockTime = 0 := rfl

@[simp] lemma emptyAccount_isEmpty : emptyAccount.IsEmpty = true := rfl

end Account

end AuthorityBlock.State
