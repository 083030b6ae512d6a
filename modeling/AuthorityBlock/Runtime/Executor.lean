import AuthorityBlock.Builtin.Natives
import AuthorityBlock.Tx.Clause
import AuthorityBlock.Tx.Price
import AuthorityBlock.Tx.Reserved
import AuthorityBlock.Chain.Repository
import AuthorityBlock.Lib.Word

/-! `Runtime.ExecuteTransaction` (`runtime/runtime.go`, `runtime/resolved_tx.go`): resolve the
transaction, buy its gas from the delegator, a sponsor or recipient of the clauses' common
recipient, or the origin, run the clauses after a checkpoint, reverting them all at the first VM
error, then return the gas left and reward the beneficiary.

The EVM is not modelled: a clause's run is given by what it does to the state, a `Prog` of writes
and snapshot scopes, and by what `exec` returns, and the EVM leaves at most the gas it was given.
Nor are the signatures and hashes of a transaction: its origin, delegator, ID and unproved work
are given with it. So everything the executor does to the state is a write, or a revert to a
checkpoint of its own, and it keeps every snapshot saved before it (`keeps_executeTransaction`).
The gas it charges lies between the intrinsic gas and the gas bought (`executeTransaction_gasUsed`). -/

namespace AuthorityBlock.Runtime

open State Hoare Builtin Chain

/-- What `Error()` of a chain error says; the two that come from the store below the chain are
named by what is missing. -/
def ChainError.Error : ChainError → String
  | .notFound => "not found"
  | .parentMissing => "parent missing"
  | .lazyInit => "head summary missing"
  | .missingNode _ => "missing trie node"
  | .genesis msg => msg

/-- A clause as the runtime reads it: `tx.Clause` and its value. -/
structure Clause extends Tx.Clause where
  Value : ℤ

/-- `tx.Transaction`: its body, and what its signatures and hash give (`Origin()`,
`Delegator()`, `ID()`, `UnprovedWork()`), which are not modelled. -/
structure Transaction where
  ChainTag : UInt8
  BlockRef : UInt64
  Expiration : UInt32
  Clauses : List Clause
  GasPriceCoef : UInt8
  Gas : UInt64
  DependsOn : Option Bytes32
  Reserved : Tx.Reserved
  Origin : Except String Address
  Delegator : Except String (Option Address)
  ID : Bytes32
  UnprovedWork : ℤ

def MaxTxWorkDelay : UInt32 := 30

namespace Transaction

variable (t : Transaction)

def body : Tx.Body := ⟨t.BlockRef, t.Gas, t.GasPriceCoef⟩

def IntrinsicGas : Except String UInt64 := Tx.IntrinsicGas (t.Clauses.map (·.toClause))

def GasPrice (baseGasPrice : ℤ) : ℤ := Tx.GasPrice t.body baseGasPrice

def OverallGasPrice (baseGasPrice provedWork : ℤ) : ℤ :=
  Tx.OverallGasPrice t.body baseGasPrice provedWork

/-- The number of the block the transaction refers to. -/
def refNum : UInt32 := Tx.BlockRef.Number t.BlockRef

def IsExpired (blockNum : UInt32) : Bool := blockNum.toNat > t.refNum.toNat + t.Expiration.toNat

def TestFeatures (supported : UInt32) : Except String Unit :=
  if t.Reserved.Features &&& supported ≠ t.Reserved.Features then .error "unsupported features"
  else if t.Reserved.Unused.length > 0 then .error "unused reserved slot"
  else .ok ()

/-- Work counts when the referred block is at most `MaxTxWorkDelay` below the head and its ID
begins with the reference. -/
def ProvedWork (headBlockNum : UInt32) (getBlockID : UInt32 → Except ChainError Bytes32) :
    Except ChainError ℤ :=
  if t.refNum ≥ headBlockNum then .ok 0
  else if headBlockNum - t.refNum > MaxTxWorkDelay then .ok 0
  else do
    let id ← getBlockID t.refNum
    if (ByteOrder.putUint64BE t.BlockRef).isPrefixOf id.bytes then .ok t.UnprovedWork else .ok 0

end Transaction

structure Event where
  Address : Address
  Topics : List Bytes32
  Data : List UInt8

structure Transfer where
  Sender : Address
  Recipient : Address
  Amount : ℤ

/-- `tx.Output`: what a clause logged. -/
structure Output where
  Events : List Event
  Transfers : List Transfer

/-- `runtime.Output` without the data and the address of a created contract, which the executor
does not read. -/
structure VMOutput where
  Events : List Event
  Transfers : List Transfer
  LeftOverGas : UInt64
  RefundGas : UInt64
  VMErr : Option String

structure Receipt where
  GasUsed : UInt64
  GasPayer : Address
  Paid : ℤ
  Reward : ℤ
  Reverted : Bool
  Outputs : List Output

/-- `xenv.BlockContext`, the fields the executor reads. -/
structure BlockContext where
  Beneficiary : Address
  Number : UInt32
  Time : UInt64
  GasLimit : UInt64

structure TransactionContext where
  ID : Bytes32
  Origin : Address
  GasPayer : Address
  GasPrice : ℤ
  ProvedWork : ℤ
  BlockRef : UInt64
  Expiration : UInt32

/-- The EVM of `PrepareClause`: what `exec` does to the state and what it returns, an error being
a state error it recovered from. It never leaves more gas than it was given. -/
structure EVM where
  keccak256 : List UInt8 → List UInt8
  exec : BlockContext → TransactionContext → Clause → UInt32 → UInt64 → State →
    Prog × Except String VMOutput
  leftOverGas_le : ∀ ctx txCtx clause index gas s output,
    (exec ctx txCtx clause index gas s).2 = .ok output → output.LeftOverGas ≤ gas

end AuthorityBlock.Runtime

namespace AuthorityBlock

/-- `runtime.Runtime`; its state is the state of the computation. -/
structure Runtime where
  chain : Chain
  ctx : Runtime.BlockContext
  evm : Runtime.EVM

end AuthorityBlock

namespace AuthorityBlock.Runtime

open State Hoare Builtin Chain

/-! ### Resolving and buying gas -/

def MaxBig256 : ℤ := 2 ^ 256 - 1

structure ResolvedTransaction where
  tx : Transaction
  Origin : Address
  Delegator : Option Address
  IntrinsicGas : UInt64
  Clauses : List Clause

/-- The loop of `ResolveTransaction` over the clauses' values and their running sum. -/
def checkValues (sumValue : ℤ) : List Clause → Except String Unit
  | [] => .ok ()
  | clause :: clauses =>
    if clause.Value < 0 then .error "clause with negative value"
    else if sumValue + clause.Value > MaxBig256 then .error "tx value too large"
    else checkValues (sumValue + clause.Value) clauses

def ResolveTransaction (tx : Transaction) : Except String ResolvedTransaction := do
  let origin ← tx.Origin
  let intrinsicGas ← tx.IntrinsicGas
  if tx.Gas < intrinsicGas then throw "intrinsic gas exceeds provided gas"
  let delegator ← tx.Delegator
  checkValues 0 tx.Clauses
  pure ⟨tx, origin, delegator, intrinsicGas, tx.Clauses⟩

namespace ResolvedTransaction

variable (r : ResolvedTransaction)

def CommonTo : Option Address :=
  match r.Clauses with
  | [] => none
  | clause :: clauses =>
    match clause.To with
    | none => none
    | some firstTo => if clauses.all (·.To == some firstTo) then some firstTo else none

/-- The `returnGas` closure of `BuyGas`: the energy of the gas left goes back to the payer, and
when the gas was bought on a user's credit, the credit used is charged to it. The credit part
holds the binding, the user, the prepaid energy and the user's credit then. -/
structure ReturnGas where
  blockTime : UInt64
  gasPrice : ℤ
  payer : Address
  credit : Option (Binding × Address × ℤ × ℤ)

def ReturnGas.run (g : ReturnGas) (rgas : UInt64) : Exec Unit := do
  let returnedEnergy : ℤ := rgas.toNat * g.gasPrice
  Energy.Add g.blockTime g.payer returnedEnergy
  match g.credit with
  | none => pure ()
  | some (binding, user, prepaid, credit) =>
    let usedEnergy := prepaid - returnedEnergy
    binding.SetUserCredit user (credit - usedEnergy) g.blockTime

/-- The part of `BuyGas` for clauses with a common recipient: on enough credit of the origin,
the sponsor pays if it is one and can, else the recipient if it can; `none` falls back to the
origin. -/
def buyGasByCredit (blockTime : UInt64) (gasPrice prepaid : ℤ) : Exec (Option ReturnGas) :=
  match r.CommonTo with
  | none => pure none
  | some commonTo => do
    let binding : Binding := ⟨commonTo⟩
    let credit ← binding.UserCredit r.Origin blockTime
    if credit < prepaid then pure none
    else do
      let sponsor ← binding.CurrentSponsor
      let isSponsor ← binding.IsSponsor sponsor
      let bySponsor ←
        (if isSponsor then Energy.Sub blockTime sponsor prepaid else pure false : Exec Bool)
      if bySponsor then
        pure (some ⟨blockTime, gasPrice, sponsor, some (binding, r.Origin, prepaid, credit)⟩)
      else do
        let sufficient ← Energy.Sub blockTime commonTo prepaid
        if sufficient then
          pure (some ⟨blockTime, gasPrice, commonTo, some (binding, r.Origin, prepaid, credit)⟩)
        else pure none

/-- `BuyGas`: the base gas price, the gas price and the return of the gas left, whose payer is
the one charged. -/
def BuyGas (blockTime : UInt64) : Exec (ℤ × ℤ × ReturnGas) := do
  let baseGasPrice ← Params.Get KeyBaseGasPrice
  let gasPrice := r.tx.GasPrice baseGasPrice
  let prepaid : ℤ := r.tx.Gas.toNat * gasPrice
  match r.Delegator with
  | some delegator =>
    let sufficient ← Energy.Sub blockTime delegator prepaid
    if sufficient then pure (baseGasPrice, gasPrice, ⟨blockTime, gasPrice, delegator, none⟩)
    else throw "insufficient energy"
  | none =>
    match ← r.buyGasByCredit blockTime gasPrice prepaid with
    | some g => pure (baseGasPrice, gasPrice, g)
    | none =>
      let sufficient ← Energy.Sub blockTime r.Origin prepaid
      if sufficient then pure (baseGasPrice, gasPrice, ⟨blockTime, gasPrice, r.Origin, none⟩)
      else throw "insufficient energy"

def ToContext (gasPrice : ℤ) (gasPayer : Address) (blockNumber : UInt32)
    (getBlockID : UInt32 → Except ChainError Bytes32) : Except String TransactionContext := do
  let provedWork ← (r.tx.ProvedWork blockNumber getBlockID).mapError ChainError.Error
  pure ⟨r.tx.ID, r.Origin, gasPayer, gasPrice, provedWork, r.tx.BlockRef, r.tx.Expiration⟩

end ResolvedTransaction

/-! ### Executing -/

variable (rt : Runtime)

/-- `exec` of `PrepareClause`: the EVM's writes, then its result. -/
def execClause (txCtx : TransactionContext) (clause : Clause) (index : UInt32) (gas : UInt64) :
    Exec VMOutput := do
  let s ← get
  let run := rt.evm.exec rt.ctx txCtx clause index gas s
  run.1.exec rt.evm.keccak256
  liftM run.2

/-- The gas left after a clause: the gas the EVM left, plus the refund, capped at half the gas
the clause used. -/
def leftAfter (leftOverGas : UInt64) (output : VMOutput) : UInt64 :=
  let gasUsed := leftOverGas - output.LeftOverGas
  let refund := gasUsed / 2
  let refund := if refund > output.RefundGas then output.RefundGas else refund
  output.LeftOverGas + refund

/-- The loop of `HasNextClause` and `NextClause` over the clauses left, with the outputs so far
and the gas left: the outputs, whether a VM error reverted the clauses to the checkpoint, and the
gas left. -/
def clauseLoop (txCtx : TransactionContext) (checkpoint : ℕ) :
    List Clause → List Output → UInt64 → Exec (List Output × Bool × UInt64)
  | [], outputs, leftOverGas => pure (outputs, false, leftOverGas)
  | clause :: clauses, outputs, leftOverGas => do
    let output ← rt.execClause txCtx clause outputs.length.toUInt32 leftOverGas
    let leftOverGas := leftAfter leftOverGas output
    match output.VMErr with
    | some _ => revertTo checkpoint >>= fun _ => pure ([], true, leftOverGas)
    | none =>
      clauseLoop txCtx checkpoint clauses (outputs ++ [⟨output.Events, output.Transfers⟩]) leftOverGas

/-- `Finalize`, once no clause is left: the receipt, after the gas left is returned and the
beneficiary rewarded. -/
def finalize (tx : Transaction) (baseGasPrice gasPrice : ℤ)
    (returnGas : ResolvedTransaction.ReturnGas) (outputs : List Output) (reverted : Bool)
    (leftOverGas : UInt64) : Exec Receipt := do
  let gasUsed := tx.Gas - leftOverGas
  returnGas.run leftOverGas
  let rewardRatio ← Params.Get KeyRewardRatio
  let provedWork ← liftM ((tx.ProvedWork (rt.ctx.Number - 1) rt.chain.getBlockID).mapError
    ChainError.Error)
  let overallGasPrice := tx.OverallGasPrice baseGasPrice provedWork
  let reward := gasUsed.toNat * overallGasPrice * rewardRatio / 10 ^ 18
  Energy.Add rt.ctx.Time rt.ctx.Beneficiary reward
  pure ⟨gasUsed, returnGas.payer, gasUsed.toNat * gasPrice, reward, reverted, outputs⟩

/-- `ExecuteTransaction`: `PrepareTransaction`, every clause, then `Finalize`. -/
def ExecuteTransaction (tx : Transaction) : Exec Receipt := do
  let resolvedTx ← liftM (ResolveTransaction tx)
  let (baseGasPrice, gasPrice, returnGas) ← resolvedTx.BuyGas rt.ctx.Time
  let txCtx ← liftM (resolvedTx.ToContext gasPrice returnGas.payer rt.ctx.Number
    rt.chain.getBlockID)
  -- `ResolveTransaction` has checked that the gas covers the intrinsic gas
  let leftOverGas := tx.Gas - resolvedTx.IntrinsicGas
  let checkpoint ← newCheckpoint
  let (outputs, reverted, leftOverGas) ←
    rt.clauseLoop txCtx checkpoint resolvedTx.Clauses [] leftOverGas
  rt.finalize tx baseGasPrice gasPrice returnGas outputs reverted leftOverGas

/-! ### What the executor keeps -/

variable {S : List (Address → Plain)}

namespace ResolvedTransaction

theorem ReturnGas.keeps_run (g : ReturnGas) (rgas : UInt64) : Keeps (Above S) (g.run rgas) := by
  refine (Energy.keeps_add _ _ _).bind fun _ => ?_
  rcases g.credit with _ | ⟨binding, user, prepaid, credit⟩
  · exact keeps_pure ()
  · exact binding.keeps_setUserCredit _ _ _

theorem keeps_buyGasByCredit (r : ResolvedTransaction) (blockTime : UInt64) (gasPrice prepaid : ℤ) :
    Keeps (Above S) (r.buyGasByCredit blockTime gasPrice prepaid) := by
  unfold buyGasByCredit
  rcases r.CommonTo with _ | commonTo
  · exact keeps_pure none
  · refine (Binding.keeps_userCredit _ _ _).bind fun credit => ?_
    refine keeps_ite (fun _ => keeps_pure none) fun _ => ?_
    refine (Binding.keeps_currentSponsor _).bind fun sponsor => ?_
    refine (Binding.keeps_isSponsor _ _).bind fun isSponsor => ?_
    refine (keeps_ite (c := isSponsor = true) (fun _ => Energy.keeps_sub _ _ _)
      fun _ => keeps_pure false).bind fun bySponsor => ?_
    refine keeps_ite (fun _ => keeps_pure _) fun _ => ?_
    exact (Energy.keeps_sub _ _ _).bind fun _ => keeps_ite (fun _ => keeps_pure _)
      fun _ => keeps_pure none

theorem keeps_buyGas (r : ResolvedTransaction) (blockTime : UInt64) :
    Keeps (Above S) (r.BuyGas blockTime) := by
  refine (keeps_paramsGet _).bind fun baseGasPrice => ?_
  rcases r.Delegator with _ | delegator
  · refine (r.keeps_buyGasByCredit _ _ _).bind fun g => ?_
    rcases g with _ | g
    · exact (Energy.keeps_sub _ _ _).bind fun _ => keeps_ite (fun _ => keeps_pure _)
        fun _ => keeps_throw _
    · exact keeps_pure _
  · exact (Energy.keeps_sub _ _ _).bind fun _ => keeps_ite (fun _ => keeps_pure _)
      fun _ => keeps_throw _

end ResolvedTransaction

theorem keeps_execClause (txCtx : TransactionContext) (clause : Clause) (index : UInt32)
    (gas : UInt64) : Keeps (Above S) (rt.execClause txCtx clause index gas) :=
  keeps_get.bind fun _ => (Prog.keeps _ _ S).bind fun _ => keeps_liftExcept _

/-- The clause loop keeps the checkpoint `PrepareTransaction` made, on top of `S₁`, until a VM
error reverts to it. -/
theorem clauseLoop_above (txCtx : TransactionContext) {S₁ : List (Address → Plain)}
    {w : Address → Plain} : ∀ clauses outputs leftOverGas,
    Triple (Above (S₁ ++ [w])) (rt.clauseLoop txCtx (S₁.length + 1) clauses outputs leftOverGas)
      fun _ => Above S₁
  | [], _, _ => triple_pure _ fun _ h => h.mono (List.prefix_append _ _)
  | clause :: clauses, outputs, leftOverGas => by
    refine Triple.bind (rt.keeps_execClause _ _ _ _) (fun output => ?_)
      fun _ _ h => h.mono (List.prefix_append _ _)
    rcases output.VMErr with _ | err
    · exact clauseLoop_above txCtx clauses _ _
    · exact Triple.bind revertTo_spec (fun _ => triple_pure _ fun _ h => h) fun _ _ h => h

theorem keeps_finalize (tx : Transaction) (baseGasPrice gasPrice : ℤ)
    (returnGas : ResolvedTransaction.ReturnGas) (outputs : List Output) (reverted : Bool)
    (leftOverGas : UInt64) :
    Keeps (Above S) (rt.finalize tx baseGasPrice gasPrice returnGas outputs reverted leftOverGas) :=
  (returnGas.keeps_run _).bind fun _ => (keeps_paramsGet _).bind fun _ =>
    (keeps_liftExcept _).bind fun _ => (Energy.keeps_add _ _ _).bind fun _ => keeps_pure _

/-- Everything `ExecuteTransaction` does to the state keeps the snapshots saved before it. -/
theorem keeps_executeTransaction (tx : Transaction) : Keeps (Above S) (rt.ExecuteTransaction tx) := by
  refine (keeps_liftExcept _).bind fun resolvedTx => ?_
  refine (resolvedTx.keeps_buyGas _).bind fun ⟨baseGasPrice, gasPrice, returnGas⟩ => ?_
  refine (keeps_liftExcept _).bind fun txCtx => ?_
  refine Triple.bind newCheckpoint_spec (fun checkpoint => ?_) fun _ _ ⟨_, _, _, he, _⟩ => by
    cases he
  intro s ⟨S₁, w, hS, hcp, hs⟩
  obtain rfl : checkpoint = S₁.length + 1 := Except.ok.inj hcp
  -- the clauses end above `S₁`, and `Finalize` only writes
  exact Triple.bind (rt.clauseLoop_above txCtx _ _ _)
    (fun ⟨outputs, reverted, leftOverGas⟩ => (rt.keeps_finalize _ _ _ _ _ _ _).mono
      (fun _ h => h) fun _ _ h => h.mono hS) (fun _ _ h => h.mono hS) s hs

/-! ### The gas charged -/

section Gas

open Word

lemma leftAfter_le {leftOverGas : UInt64} {output : VMOutput}
    (h : output.LeftOverGas ≤ leftOverGas) : leftAfter leftOverGas output ≤ leftOverGas := by
  rw [UInt64.le_iff_toNat_le] at h
  have hlt : leftOverGas.toNat < 2 ^ 64 := leftOverGas.toNat_lt
  have hused : (leftOverGas - output.LeftOverGas).toNat = leftOverGas.toNat - output.LeftOverGas.toNat :=
    toNat_sub_of_toNat_le h
  have hhalf : ((leftOverGas - output.LeftOverGas) / 2).toNat =
      (leftOverGas.toNat - output.LeftOverGas.toNat) / 2 := by
    rw [UInt64.toNat_div, hused]
    rfl
  simp only [leftAfter]
  split_ifs with hrefund
  · rw [gt_iff_lt, UInt64.lt_iff_toNat_lt, hhalf] at hrefund
    rw [UInt64.le_iff_toNat_le, toNat_add_of_lt (by omega)]
    omega
  · rw [UInt64.le_iff_toNat_le, toNat_add_of_lt (by omega), hhalf]
    omega

lemma gasUsed_bounds {gas intrinsicGas leftOverGas : UInt64} (hi : intrinsicGas ≤ gas)
    (hl : leftOverGas ≤ gas - intrinsicGas) :
    intrinsicGas ≤ gas - leftOverGas ∧ gas - leftOverGas ≤ gas := by
  rw [UInt64.le_iff_toNat_le] at hi hl
  rw [toNat_sub_of_toNat_le hi] at hl
  have hused : (gas - leftOverGas).toNat = gas.toNat - leftOverGas.toNat :=
    toNat_sub_of_toNat_le (by omega)
  rw [UInt64.le_iff_toNat_le, UInt64.le_iff_toNat_le, hused]
  omega

theorem resolveTransaction_ok {tx : Transaction} {r : ResolvedTransaction}
    (h : ResolveTransaction tx = .ok r) :
    tx.IntrinsicGas = .ok r.IntrinsicGas ∧ r.IntrinsicGas ≤ tx.Gas ∧ r.Clauses = tx.Clauses := by
  obtain ⟨origin, -, h⟩ := Rlp.bind_eq_ok h
  obtain ⟨intrinsicGas, hi, h⟩ := Rlp.bind_eq_ok h
  split at h
  · cases h
  rename_i hg
  obtain ⟨delegator, -, h⟩ := Rlp.bind_eq_ok h
  obtain ⟨u, -, h⟩ := Rlp.bind_eq_ok h
  obtain rfl := Except.ok.inj h
  exact ⟨hi, UInt64.not_lt.mp hg, rfl⟩

theorem execClause_leftOverGas (txCtx : TransactionContext) (clause : Clause) (index : UInt32)
    (gas : UInt64) : Returns (rt.execClause txCtx clause index gas) (·.LeftOverGas ≤ gas) :=
  Returns.bind_any fun _ => Returns.bind_any fun _ =>
    (returns_liftExcept _).mono fun _ h => rt.evm.leftOverGas_le _ _ _ _ _ _ _ h

/-- The clauses leave at most the gas they were given. -/
theorem clauseLoop_leftOverGas (txCtx : TransactionContext) (checkpoint : ℕ) :
    ∀ clauses outputs leftOverGas,
    Returns (rt.clauseLoop txCtx checkpoint clauses outputs leftOverGas) (·.2.2 ≤ leftOverGas)
  | [], _, _ => returns_pure (UInt64.le_refl _)
  | clause :: clauses, outputs, leftOverGas => by
    refine Returns.bind (rt.execClause_leftOverGas _ _ _ _) fun output houtput => ?_
    have hleft := leftAfter_le houtput
    rcases output.VMErr with _ | err
    · exact (clauseLoop_leftOverGas txCtx checkpoint clauses _ _).mono fun _ h => UInt64.le_trans h hleft
    · exact Returns.bind_any fun _ => returns_pure hleft

theorem finalize_gasUsed (tx : Transaction) (baseGasPrice gasPrice : ℤ)
    (returnGas : ResolvedTransaction.ReturnGas) (outputs : List Output) (reverted : Bool)
    (leftOverGas : UInt64) :
    Returns (rt.finalize tx baseGasPrice gasPrice returnGas outputs reverted leftOverGas)
      (·.GasUsed = tx.Gas - leftOverGas) :=
  Returns.bind_any fun _ => Returns.bind_any fun _ => Returns.bind_any fun _ =>
    Returns.bind_any fun _ => returns_pure rfl

/-- The receipt charges at least the intrinsic gas and at most the gas bought. -/
theorem executeTransaction_gasUsed (tx : Transaction) :
    Returns (rt.ExecuteTransaction tx) fun receipt => ∃ intrinsicGas,
      tx.IntrinsicGas = .ok intrinsicGas ∧ intrinsicGas ≤ receipt.GasUsed ∧
        receipt.GasUsed ≤ tx.Gas := by
  refine Returns.bind (returns_liftExcept _) fun resolvedTx hres => ?_
  obtain ⟨hintrinsic, hle, -⟩ := resolveTransaction_ok hres
  refine Returns.bind_any fun ⟨baseGasPrice, gasPrice, returnGas⟩ => ?_
  refine Returns.bind_any fun txCtx => Returns.bind_any fun checkpoint => ?_
  refine Returns.bind (rt.clauseLoop_leftOverGas _ _ _ _ _)
    fun ⟨outputs, reverted, leftOverGas⟩ hleft => ?_
  refine (rt.finalize_gasUsed _ _ _ _ _ _ _).mono fun receipt hreceipt => ?_
  rw [hreceipt]
  exact ⟨_, hintrinsic, gasUsed_bounds hle hleft⟩

end Gas

end AuthorityBlock.Runtime
