import AuthorityBlock.Ablock.Types
import Mathlib

/-! The credit plan of the prototype builtin (`builtin/prototype`): a user's credit is stored as
the credit used, floored at zero, with the block time it was set at, and recovers at the plan's
rate until it reaches the plan's credit. The prototype's storage is modelled decoded: each key
holds a `userObject` or nothing, and nothing reads back as the empty object, as
`getUserObject` does. -/

namespace AuthorityBlock.Prototype

structure CreditPlan where
  credit : ℤ
  recoveryRate : ℤ

structure UserObject where
  usedCredit : ℤ
  blockTime : UInt64
deriving DecidableEq

def UserObject.isEmpty (u : UserObject) : Bool := u.usedCredit = 0 && u.blockTime = 0

def UserObject.credit (u : UserObject) (plan : CreditPlan) (blockTime : UInt64) : ℤ :=
  if u.usedCredit = 0 then plan.credit
  else
    let used := if blockTime ≤ u.blockTime then u.usedCredit
      else u.usedCredit - (blockTime - u.blockTime).toNat * plan.recoveryRate
    if used ≤ 0 then plan.credit
    else if used ≥ plan.credit then 0
    else plan.credit - used

structure Binding where
  self : Address
  users : Bytes32 → Option UserObject
  creditPlan : CreditPlan

namespace Binding

def userKey (b : Binding) (user : Address) : Bytes32 :=
  Blake2b [b.self.bytes, user.bytes, [0x75, 0x73, 0x65, 0x72]]

def getUserObject (b : Binding) (user : Address) : UserObject :=
  (b.users (b.userKey user)).getD ⟨0, 0⟩

-- an empty object is stored as nothing
def setUserObject (b : Binding) (user : Address) (uo : UserObject) : Binding :=
  { b with users := Function.update b.users (b.userKey user) (if uo.isEmpty then none else some uo) }

def isUser (b : Binding) (user : Address) : Bool := !(b.getUserObject user).isEmpty

def addUser (b : Binding) (user : Address) (blockTime : UInt64) : Binding :=
  b.setUserObject user ⟨0, blockTime⟩

def removeUser (b : Binding) (user : Address) : Binding := b.setUserObject user ⟨0, 0⟩

def userCredit (b : Binding) (user : Address) (blockTime : UInt64) : ℤ :=
  let uo := b.getUserObject user
  if uo.isEmpty then 0 else uo.credit b.creditPlan blockTime

def setUserCredit (b : Binding) (user : Address) (credit : ℤ) (blockTime : UInt64) : Binding :=
  let used := b.creditPlan.credit - credit
  let used := if used < 0 then 0 else used
  b.setUserObject user ⟨used, blockTime⟩

end Binding

lemma UserObject.eq_of_isEmpty {u : UserObject} (h : u.isEmpty = true) : u = ⟨0, 0⟩ := by
  cases u with
  | mk usedCredit blockTime =>
    simp only [UserObject.isEmpty, Bool.and_eq_true, decide_eq_true_eq] at h
    rw [h.1, h.2]

lemma UserObject.credit_eq_clamp (u : UserObject) (plan : CreditPlan) (blockTime : UInt64)
    (hP : 0 ≤ plan.credit) (hu : u.usedCredit ≠ 0) :
    u.credit plan blockTime = max 0 (min (plan.credit -
      if blockTime ≤ u.blockTime then u.usedCredit
      else u.usedCredit - (blockTime - u.blockTime).toNat * plan.recoveryRate) plan.credit) := by
  unfold UserObject.credit
  rw [if_neg hu]
  generalize (if blockTime ≤ u.blockTime then u.usedCredit
    else u.usedCredit - (blockTime - u.blockTime).toNat * plan.recoveryRate) = used
  dsimp only
  split_ifs <;> omega

lemma UserObject.credit_mono (u : UserObject) (plan : CreditPlan) (hP : 0 ≤ plan.credit)
    (hr : 0 ≤ plan.recoveryRate) {t₁ t₂ : UInt64} (ht : t₁ ≤ t₂) :
    u.credit plan t₁ ≤ u.credit plan t₂ := by
  by_cases hu : u.usedCredit = 0
  · simp [UserObject.credit, hu]
  rw [u.credit_eq_clamp plan t₁ hP hu, u.credit_eq_clamp plan t₂ hP hu]
  have hle := UInt64.le_iff_toNat_le.mp ht
  -- the used credit at `t₂` is at most the one at `t₁`
  have hused : (if t₂ ≤ u.blockTime then u.usedCredit
      else u.usedCredit - (t₂ - u.blockTime).toNat * plan.recoveryRate) ≤
      (if t₁ ≤ u.blockTime then u.usedCredit
      else u.usedCredit - (t₁ - u.blockTime).toNat * plan.recoveryRate) := by
    split_ifs with h₂ h₁ h₁
    · exact Int.le_refl _
    · rw [UInt64.le_iff_toNat_le] at h₁ h₂
      omega
    · have := Int.mul_nonneg (Int.natCast_nonneg (t₂ - u.blockTime).toNat) hr
      omega
    · rw [UInt64.le_iff_toNat_le] at h₁ h₂
      have hsub : (t₁ - u.blockTime).toNat ≤ (t₂ - u.blockTime).toNat := by
        rw [UInt64.toNat_sub_of_le _ _ (UInt64.le_iff_toNat_le.mpr (by omega)),
          UInt64.toNat_sub_of_le _ _ (UInt64.le_iff_toNat_le.mpr (by omega))]
        omega
      have := Int.mul_le_mul_of_nonneg_right (Int.ofNat_le.mpr hsub) hr
      omega
  omega

namespace Binding

variable (b : Binding) (user : Address)

lemma getUserObject_setUserObject (uo : UserObject) :
    (b.setUserObject user uo).getUserObject user = uo := by
  by_cases h : uo.isEmpty
  · rw [UserObject.eq_of_isEmpty h]
    simp [setUserObject, getUserObject, userKey, UserObject.isEmpty]
  · simp [setUserObject, getUserObject, userKey, h]

lemma creditPlan_setUserObject (uo : UserObject) :
    (b.setUserObject user uo).creditPlan = b.creditPlan := rfl

lemma userCredit_mem (hP : 0 ≤ b.creditPlan.credit) (blockTime : UInt64) :
    0 ≤ b.userCredit user blockTime ∧ b.userCredit user blockTime ≤ b.creditPlan.credit := by
  dsimp only [userCredit]
  split_ifs with hempty
  · exact ⟨Int.le_refl _, hP⟩
  by_cases hu : (b.getUserObject user).usedCredit = 0
  · simp [UserObject.credit, hu, hP]
  rw [UserObject.credit_eq_clamp _ _ _ hP hu]
  omega

lemma userCredit_mono (hP : 0 ≤ b.creditPlan.credit) (hr : 0 ≤ b.creditPlan.recoveryRate)
    {t₁ t₂ : UInt64} (ht : t₁ ≤ t₂) : b.userCredit user t₁ ≤ b.userCredit user t₂ := by
  dsimp only [userCredit]
  split_ifs
  · exact Int.le_refl _
  · exact UserObject.credit_mono _ _ hP hr ht

lemma userCredit_setUserCredit (hP : 0 ≤ b.creditPlan.credit)
    (hr : 0 ≤ b.creditPlan.recoveryRate) (c : ℤ) {t t' : UInt64} (ht : t ≠ 0) (htt : t ≤ t') :
    (b.setUserCredit user c t).userCredit user t' =
      max 0 (min (c + b.creditPlan.recoveryRate * ((t'.toNat : ℤ) - t.toNat))
        b.creditPlan.credit) := by
  have hle := UInt64.le_iff_toNat_le.mp htt
  have hΔ : 0 ≤ b.creditPlan.recoveryRate * ((t'.toNat : ℤ) - t.toNat) :=
    Int.mul_nonneg hr (by omega)
  dsimp only [setUserCredit, userCredit]
  rw [getUserObject_setUserObject, creditPlan_setUserObject]
  -- the object set is not empty: its block time is not zero
  rw [if_neg (by simp [UserObject.isEmpty, ht])]
  by_cases h0 : (if b.creditPlan.credit - c < 0 then 0 else b.creditPlan.credit - c) = 0
  · -- the credit set is at least the plan's: nothing is used
    simp only [UserObject.credit, h0, if_true]
    split_ifs at h0 <;> omega
  -- whether `t' = t` or later, the credit still used is what was set minus `r * (t' - t)`
  have hrecovered : ∀ used : ℤ, (if t' ≤ t then used
      else used - ((t' - t).toNat : ℤ) * b.creditPlan.recoveryRate) =
      used - b.creditPlan.recoveryRate * ((t'.toNat : ℤ) - t.toNat) := by
    intro used
    split_ifs with hback
    · have heq : (t'.toNat : ℤ) - t.toNat = 0 := by
        have := UInt64.le_iff_toNat_le.mp hback
        omega
      rw [heq, Int.mul_zero, Int.sub_zero]
    · have hsub : ((t' - t).toNat : ℤ) = (t'.toNat : ℤ) - t.toNat := by
        rw [UInt64.toNat_sub_of_le _ _ htt]
        omega
      rw [hsub, Int.mul_comm]
  rw [UserObject.credit_eq_clamp _ _ _ hP h0]
  dsimp only
  rw [hrecovered]
  split_ifs at h0 ⊢ <;> omega

end Binding

/-- For a plan with nonnegative credit `P` and rate `r`, after `SetUserCredit(user, c, t)` at a
block time `t > 0`, the user's credit at every `t' ≥ t` is `c + r * (t' - t)` clamped to
`[0, P]`; the credit stays within `[0, P]` and does not decrease with time. -/
theorem userCredit_recovers (b : Binding) (hP : 0 ≤ b.creditPlan.credit)
    (hr : 0 ≤ b.creditPlan.recoveryRate) (user : Address) (c : ℤ) {t t' : UInt64} (ht : 0 < t)
    (htt : t ≤ t') :
    (b.setUserCredit user c t).userCredit user t' =
      max 0 (min (c + b.creditPlan.recoveryRate * ((t'.toNat : ℤ) - t.toNat))
        b.creditPlan.credit) ∧
    (∀ t'', 0 ≤ (b.setUserCredit user c t).userCredit user t'' ∧
      (b.setUserCredit user c t).userCredit user t'' ≤ b.creditPlan.credit) ∧
    (∀ t₁ t₂ : UInt64, t₁ ≤ t₂ →
      (b.setUserCredit user c t).userCredit user t₁ ≤ (b.setUserCredit user c t).userCredit user t₂) := by
  have ht0 : t ≠ 0 := fun h => by rw [h] at ht; exact UInt64.lt_irrefl 0 ht
  refine ⟨b.userCredit_setUserCredit user hP hr c ht0 htt, fun t'' => ?_, fun t₁ t₂ h => ?_⟩
  · exact (b.setUserCredit user c t).userCredit_mem user hP t''
  · exact (b.setUserCredit user c t).userCredit_mono user hP hr h

theorem userCredit_recovers_example :
    (0 : ℤ) ≤ 100 ∧ (0 : ℤ) ≤ 2 ∧ (0 : UInt64) < 10 ∧ (10 : UInt64) ≤ 40 ∧
    (Binding.setUserCredit ⟨Address.zero, fun _ => none, ⟨100, 2⟩⟩ Address.zero 30 10).userCredit
        Address.zero 40 = max 0 (min (30 + 2 * (((40 : UInt64).toNat : ℤ) - (10 : UInt64).toNat)) 100) ∧
      (∀ t'', 0 ≤ (Binding.setUserCredit ⟨Address.zero, fun _ => none, ⟨100, 2⟩⟩ Address.zero 30
          10).userCredit Address.zero t'' ∧
        (Binding.setUserCredit ⟨Address.zero, fun _ => none, ⟨100, 2⟩⟩ Address.zero 30 10).userCredit
          Address.zero t'' ≤ 100) ∧
      (∀ t₁ t₂ : UInt64, t₁ ≤ t₂ →
        (Binding.setUserCredit ⟨Address.zero, fun _ => none, ⟨100, 2⟩⟩ Address.zero 30 10).userCredit
          Address.zero t₁ ≤
        (Binding.setUserCredit ⟨Address.zero, fun _ => none, ⟨100, 2⟩⟩ Address.zero 30 10).userCredit
          Address.zero t₂) :=
  ⟨by decide, by decide, by decide, by decide,
    userCredit_recovers ⟨Address.zero, fun _ => none, ⟨100, 2⟩⟩ (by decide) (by decide)
      Address.zero 30 (by decide) (by decide)⟩

end AuthorityBlock.Prototype
