import AuthorityBlock.Runtime.Executor

/-! `Flow.Adopt` (`packer/flow.go`): the checks a transaction has to pass on the block being
packed, then its run on the runtime's state after a checkpoint, which is reverted when the
runtime returns an error; an adopted transaction's receipt and gas go into the flow. The
parent header and what `Pack` reads are left out.

A failed `Adopt` leaves the flow reading as before (`adopt_error_unchanged`). An adopted
transaction adds one transaction, one receipt and its gas; the gas check of `Adopt` adds the
flow's gas and the transaction's in `uint64`, so that the block's gas stays within its limit only
while that sum does not wrap. -/

namespace AuthorityBlock.Packer

open AuthorityBlock.Runtime State Chain Hoare

/-- What `Adopt` reads of the packer: the chain tag of its repository, the `BLOCKLIST` fork
number, and `ablock.IsOriginBlocked`, over a blocklist that is not modelled. -/
structure Config where
  ChainTag : UInt8
  BLOCKLIST : UInt32
  IsOriginBlocked : Address → Bool

/-- `packer.Flow`; `state` is the state of its runtime. -/
structure Flow where
  packer : Config
  runtime : Runtime
  state : State
  processedTxs : Bytes32 → Option Bool
  gasUsed : UInt64
  txs : List Transaction
  receipts : List Receipt
  features : UInt32

/-- The errors of `Adopt`: `badTxError`, the four of `packer/errors.go`, and an error of the
chain that `findTx` passes on. -/
inductive AdoptError
  | badTx (msg : String)
  | gasLimitReached
  | txNotAdoptableNow
  | txNotAdoptableForever
  | knownTx
  | chain (err : ChainError)
deriving DecidableEq

def AdoptError.Error : AdoptError → String
  | .badTx msg => "bad tx: " ++ msg
  | .gasLimitReached => "gas limit reached"
  | .txNotAdoptableNow => "tx not adoptable now"
  | .txNotAdoptableForever => "tx not adoptable forever"
  | .knownTx => "known tx"
  | .chain err => Runtime.ChainError.Error err

/-- `Repository.IsNotFound`: `errNotFound`, or a key the store does not have, as the head's
summary that `lazyInit` could not load. -/
def IsNotFound : ChainError → Bool
  | .notFound | .lazyInit => true
  | _ => false

/-- `newFlow`: nothing adopted yet. -/
def newFlow (packer : Config) (runtime : Runtime) (state : State) (features : UInt32) : Flow :=
  ⟨packer, runtime, state, fun _ => none, 0, [], [], features⟩

namespace Flow

variable (f : Flow)

def Number : UInt32 := f.runtime.ctx.Number

/-- Whether the transaction is in the flow or on the chain, and whether it was reverted. -/
def findTx (txID : Bytes32) : Except ChainError (Bool × Bool) :=
  match f.processedTxs txID with
  | some reverted => .ok (true, reverted)
  | none =>
    match f.runtime.chain.getTransactionMeta txID with
    | .ok txMeta => .ok (true, txMeta.reverted)
    | .error err => if IsNotFound err then .ok (false, false) else .error err

/-- `origin, _ := tx.Origin()`: the zero address when the signature gives none. -/
def originOrZero (tx : Transaction) : Address :=
  match tx.Origin with
  | .ok origin => origin
  | .error _ => Address.zero

/-- The checks of `Adopt` before the transaction runs; they only read the flow. Each returns
early, as in the source. -/
def checkTx (tx : Transaction) : Except AdoptError Unit :=
  if f.Number ≥ f.packer.BLOCKLIST && f.packer.IsOriginBlocked (originOrZero tx) then
    .error (.badTx "tx origin blocked")
  else match tx.TestFeatures f.features with
  | .error err => .error (.badTx err)
  | .ok () =>
    if tx.ChainTag ≠ f.packer.ChainTag then .error (.badTx "chain tag mismatch")
    else if f.Number < tx.refNum then .error .txNotAdoptableNow
    else if tx.IsExpired f.Number then .error (.badTx "expired")
    else if f.gasUsed + tx.Gas > f.runtime.ctx.GasLimit then
      -- the block has room for the smallest transaction: another may fit
      if f.gasUsed + TxGas + ClauseGas ≤ f.runtime.ctx.GasLimit then .error .txNotAdoptableNow
      else .error .gasLimitReached
    else do
      let (found, _) ← (f.findTx tx.ID).mapError .chain
      if found then throw .knownTx
      match tx.DependsOn with
      | none => pure ()
      | some dependsOn =>
        let (found, reverted) ← (f.findTx dependsOn).mapError .chain
        if !found then throw .txNotAdoptableNow
        else if reverted then throw .txNotAdoptableForever
        else pure ()

/-- The flow once a transaction's receipt is recorded, on the state the transaction left. -/
def record (tx : Transaction) (receipt : Receipt) (state : State) : Flow :=
  { f with
    state
    processedTxs := fun txID => if txID = tx.ID then some receipt.Reverted else f.processedTxs txID
    gasUsed := f.gasUsed + receipt.GasUsed
    receipts := f.receipts ++ [receipt]
    txs := f.txs ++ [tx] }

/-- `Adopt`: the checks, then the run after a checkpoint of the state, reverted on an error of
the runtime. A panic of the state is `none`. -/
def Adopt (tx : Transaction) : Option (Except AdoptError Unit × Flow) :=
  match f.checkTx tx with
  | .error err => some (.error err, f)
  | .ok () =>
    let (state, checkpoint) := f.state.newCheckpoint
    match (f.runtime.ExecuteTransaction tx).run.run state with
    | none => none
    | some (.error err, state) =>
      -- skip and revert state
      (state.revertTo checkpoint).map fun state => (.error (.badTx err), { f with state })
    | some (.ok receipt, state) => some (.ok (), f.record tx receipt state)

/-! ### What `Adopt` can do -/

variable {f} {tx : Transaction} {x : Except AdoptError Unit} {f' : Flow}

lemma checkTx_gas (h : f.checkTx tx = .ok ()) : f.gasUsed + tx.Gas ≤ f.runtime.ctx.GasLimit := by
  unfold checkTx at h
  split at h
  · cases h
  split at h
  · cases h
  split at h
  · cases h
  split at h
  · cases h
  split at h
  · cases h
  split at h
  · split at h <;> cases h
  rename_i hgas
  exact UInt64.not_lt.mp hgas

/-- Everything `Adopt` can do: fail a check and leave the flow as it is, or run the transaction
after a checkpoint, and revert an error of the runtime, or record its receipt. -/
theorem adopt_cases (h : f.Adopt tx = some (x, f')) :
    (∃ err, f.checkTx tx = .error err ∧ x = .error err ∧ f' = f) ∨
    (f.checkTx tx = .ok () ∧ ∃ err s₁ s₂,
      (f.runtime.ExecuteTransaction tx).run.run f.state.newCheckpoint.1 = some (.error err, s₁) ∧
      s₁.revertTo f.state.newCheckpoint.2 = some s₂ ∧
      x = .error (.badTx err) ∧ f' = { f with state := s₂ }) ∨
    (f.checkTx tx = .ok () ∧ ∃ receipt s₁,
      (f.runtime.ExecuteTransaction tx).run.run f.state.newCheckpoint.1 = some (.ok receipt, s₁) ∧
      x = .ok () ∧ f' = f.record tx receipt s₁) := by
  unfold Adopt at h
  rcases hc : f.checkTx tx with err | ⟨⟨⟩⟩
  · rw [hc] at h
    obtain ⟨rfl, rfl⟩ := Prod.mk.inj (Option.some.inj h)
    exact .inl ⟨err, rfl, rfl, rfl⟩
  rw [hc] at h
  rcases hcp : f.state.newCheckpoint with ⟨s₀, checkpoint⟩
  rw [hcp] at h
  dsimp only at h
  rcases hrun : (f.runtime.ExecuteTransaction tx).run.run s₀ with _ | ⟨_ | receipt, s₁⟩
  · rw [hrun] at h
    cases h
  · -- the runtime's error: the state goes back to the checkpoint
    rw [hrun] at h
    obtain ⟨s₂, hs₂, h⟩ := Option.map_eq_some_iff.mp h
    obtain ⟨rfl, rfl⟩ := Prod.mk.inj h
    exact .inr (.inl ⟨rfl, _, s₁, s₂, rfl, hs₂, rfl, rfl⟩)
  · rw [hrun] at h
    obtain ⟨rfl, rfl⟩ := Prod.mk.inj (Option.some.inj h)
    exact .inr (.inr ⟨rfl, receipt, s₁, rfl, rfl, rfl⟩)

lemma adopt_runtime (h : f.Adopt tx = some (x, f')) : f'.runtime = f.runtime := by
  rcases adopt_cases h with ⟨_, -, -, rfl⟩ | ⟨-, _, _, _, -, -, -, rfl⟩ | ⟨-, _, _, -, -, rfl⟩ <;> rfl

/-- `Adopt` keeps the runtime's state well formed. -/
theorem adopt_wf (hwf : f.state.Wf) (h : f.Adopt tx = some (x, f')) : f'.state.Wf := by
  rcases adopt_cases h with ⟨_, -, -, rfl⟩ | ⟨-, _, _, _, hrun, hrev, -, rfl⟩ |
    ⟨-, _, _, hrun, -, rfl⟩
  · exact hwf
  · exact (revert_sameReads (fun _ => f.runtime.keeps_executeTransaction tx) hwf hrun hrev).2
  · obtain ⟨r, -, habove⟩ := above_newCheckpoint hwf
    exact (f.runtime.keeps_executeTransaction tx _ habove _ _ hrun).wf

/-- What a failed `Adopt` leaves as it was: every read of the state, and what the flow has
recorded. -/
structure Unchanged (f f' : Flow) : Prop where
  state : SameReads f.state f'.state
  gasUsed : f'.gasUsed = f.gasUsed
  txs : f'.txs = f.txs
  receipts : f'.receipts = f.receipts
  processedTxs : f'.processedTxs = f.processedTxs

lemma Unchanged.of_sameReads {s : State} (h : SameReads f.state s) :
    Unchanged f { f with state := s } where
  state := h
  gasUsed := rfl
  txs := rfl
  receipts := rfl
  processedTxs := rfl

/-- A failed `Adopt` changes nothing: a check failed before the state was touched, or the
runtime's error was reverted to the checkpoint. -/
theorem adopt_error_unchanged (hwf : f.state.Wf) {err : AdoptError}
    (h : f.Adopt tx = some (.error err, f')) : Unchanged f f' := by
  rcases adopt_cases h with ⟨_, -, -, rfl⟩ | ⟨-, _, _, _, hrun, hrev, -, rfl⟩ | ⟨-, _, _, -, hx, -⟩
  · exact Unchanged.of_sameReads (SameReads.refl _)
  · exact Unchanged.of_sameReads
      (revert_sameReads (fun _ => f.runtime.keeps_executeTransaction tx) hwf hrun hrev).1
  · cases hx

/-- An adopted transaction passed the checks, and its receipt charges at most its gas. -/
theorem adopt_ok (h : f.Adopt tx = some (.ok (), f')) :
    f.checkTx tx = .ok () ∧ ∃ receipt state, receipt.GasUsed ≤ tx.Gas ∧
      f' = f.record tx receipt state := by
  rcases adopt_cases h with ⟨_, -, hx, -⟩ | ⟨-, _, _, _, -, -, hx, -⟩ |
    ⟨hc, receipt, s₁, hrun, -, rfl⟩
  · cases hx
  · cases hx
  obtain ⟨_, -, -, hgas⟩ :=
    f.runtime.executeTransaction_gasUsed tx _ trivial _ _ hrun receipt rfl
  exact ⟨hc, receipt, s₁, hgas, rfl⟩

lemma record_gasUsed_le (hc : f.checkTx tx = .ok ()) {receipt : Receipt}
    (hgas : receipt.GasUsed ≤ tx.Gas) (hwrap : f.gasUsed.toNat + tx.Gas.toNat < 2 ^ 64) :
    f.gasUsed + receipt.GasUsed ≤ f.runtime.ctx.GasLimit := by
  have hcheck := checkTx_gas hc
  rw [UInt64.le_iff_toNat_le] at hgas hcheck ⊢
  rw [Word.toNat_add_of_lt hwrap] at hcheck
  rw [Word.toNat_add_of_lt (by omega)]
  omega

/-- Code that jumps back to its start for ever: JUMPDEST, PUSH1 0, JUMP. -/
def loopCode : List UInt8 := [0x5B, 0x60, 0x00, 0x56]

/-- The address that holds `loopCode` in the packing flow's world. -/
def loopAddress : Address := ⟨List.replicate 19 0 ++ [0x4C], by decide⟩

/-- The EVM on worlds whose only code is `loopCode`, for clauses that move no value. A call
of an address without code returns at once with all its gas, as `evm.Call` does; a call of
an address that holds code spins until its gas is spent, which `evm.Call` reports as out of
gas with nothing left. A clause that moves value or creates a contract, which the flows run on
this EVM never hold, is reported out of gas too. -/
def loopEVM : EVM where
  keccak256 := id
  exec _ _ clause _ gas s :=
    match clause.To with
    | some addr =>
      if clause.Value = 0 ∧ s.getCode addr = some [] then (.done, .ok ⟨[], [], gas, 0, none⟩)
      else (.done, .ok ⟨[], [], 0, 0, some "out of gas"⟩)
    | none => (.done, .ok ⟨[], [], 0, 0, some "out of gas"⟩)
  leftOverGas_le _ _ clause _ gas s _ h := by
    rcases clause with ⟨⟨_ | addr, _, _⟩, value⟩
    · cases h
      exact UInt64.zero_le
    · dsimp only at h
      split_ifs at h
      · cases h
        exact UInt64.le_refl gas
      · cases h
        exact UInt64.zero_le

/-- A flow packing block 1 with a gas limit of ten million, on a world whose one contract
loops. -/
def packingFlow : Flow :=
  newFlow ⟨0, 0, fun _ => false⟩
    ⟨⟨Repository.empty, Bytes32.zero⟩, ⟨Address.zero, 1, 0, 10000000⟩, loopEVM⟩
    (State.new ⟨fun _ => emptyAccount, fun a => if a = loopAddress then loopCode else [],
      fun _ _ => []⟩) 0

/-- A transaction of one clause, a call of the looping contract, whose gas fills the block; a
delegator pays for it. -/
def fillingTx : Transaction where
  ChainTag := 0
  BlockRef := 4294967296
  Expiration := 720
  Clauses := [⟨⟨some loopAddress, [], by decide⟩, 0⟩]
  GasPriceCoef := 0
  Gas := 10000000
  DependsOn := none
  Reserved := ⟨0, []⟩
  Origin := .ok Address.zero
  Delegator := .ok (some Address.zero)
  ID := Bytes32.zero
  UnprovedWork := 0

/-- A transaction without clauses that offers all the gas a `uint64` holds. -/
def maxGasTx : Transaction where
  ChainTag := 0
  BlockRef := 4294967296
  Expiration := 720
  Clauses := []
  GasPriceCoef := 0
  Gas := 18446744073709551615
  DependsOn := none
  Reserved := ⟨0, []⟩
  Origin := .ok Address.zero
  Delegator := .ok none
  ID := ⟨List.replicate 31 0 ++ [1], rfl⟩
  UnprovedWork := 0

lemma eq_ok_of_toBool {x : Except AdoptError Unit} (h : x.toBool = true) : x = .ok () := by
  cases x with
  | error err => cases h
  | ok u => rfl

/-- The loop of `packer_loop.go` (and of `solo.go`) over the pool's executables: it adopts each in
turn, stops at a full block, skips a transaction that may fit later, and collects the others to
be removed from the pool. -/
def adoptTxs : Flow → List Transaction → Option (Flow × List Transaction)
  | f, [] => some (f, [])
  | f, tx :: txs =>
    match f.Adopt tx with
    | none => none
    | some (.ok (), f') => adoptTxs f' txs
    | some (.error .gasLimitReached, f') => some (f', [])
    | some (.error .txNotAdoptableNow, f') => adoptTxs f' txs
    | some (.error _, f') => (adoptTxs f' txs).map fun (f'', txsToRemove) => (f'', tx :: txsToRemove)

lemma adoptTxs_cons {tx : Transaction} {txs : List Transaction} {f'' : Flow}
    {txsToRemove : List Transaction} (h : adoptTxs f (tx :: txs) = some (f'', txsToRemove)) :
    ∃ x f', f.Adopt tx = some (x, f') ∧
      ((x = .error .gasLimitReached ∧ f'' = f' ∧ txsToRemove = []) ∨
        ∃ rest, adoptTxs f' txs = some (f'', rest) ∧
          ((x = .ok () ∨ x = .error .txNotAdoptableNow) ∧ txsToRemove = rest ∨
            (∃ err, x = .error err ∧ err ≠ .gasLimitReached ∧ err ≠ .txNotAdoptableNow) ∧
              txsToRemove = tx :: rest)) := by
  unfold adoptTxs at h
  rcases hadopt : f.Adopt tx with _ | ⟨x, f'⟩
  · rw [hadopt] at h
    cases h
  rw [hadopt] at h
  refine ⟨x, f', rfl, ?_⟩
  rcases x with err | ⟨⟨⟩⟩
  · cases err with
    | gasLimitReached =>
      obtain ⟨rfl, rfl⟩ := Prod.mk.inj (Option.some.inj h)
      exact .inl ⟨rfl, rfl, rfl⟩
    | txNotAdoptableNow => exact .inr ⟨_, h, .inl ⟨.inr rfl, rfl⟩⟩
    | badTx _ | txNotAdoptableForever | knownTx | chain _ =>
      -- the transaction is collected for removal
      obtain ⟨⟨f₂, rest⟩, hrest, heq⟩ := Option.map_eq_some_iff.mp h
      obtain ⟨rfl, rfl⟩ := Prod.mk.inj heq
      exact .inr ⟨rest, hrest, .inr ⟨⟨_, rfl, nofun, nofun⟩, rfl⟩⟩
  · exact .inr ⟨_, h, .inl ⟨.inl rfl, rfl⟩⟩

lemma adopt_records (hwf : f.state.Wf) (h : f.Adopt tx = some (x, f')) :
    (f'.txs = f.txs ∧ f'.receipts = f.receipts) ∨
      (x = .ok () ∧ f'.txs = f.txs ++ [tx] ∧ f'.receipts.length = f.receipts.length + 1) := by
  rcases x with err | ⟨⟨⟩⟩
  · have hu := adopt_error_unchanged hwf h
    exact .inl ⟨hu.txs, hu.receipts⟩
  · obtain ⟨-, receipt, state, -, rfl⟩ := adopt_ok h
    exact .inr ⟨rfl, rfl, List.length_append⟩

lemma adopt_gasUsed_le (hwf : f.state.Wf) (hle : f.gasUsed ≤ f.runtime.ctx.GasLimit)
    (hgas : tx.Gas.toNat + f.runtime.ctx.GasLimit.toNat < 2 ^ 64)
    (h : f.Adopt tx = some (x, f')) : f'.gasUsed ≤ f'.runtime.ctx.GasLimit := by
  rw [adopt_runtime h]
  rcases x with err | ⟨⟨⟩⟩
  · rw [(adopt_error_unchanged hwf h).gasUsed]
    exact hle
  · obtain ⟨hc, receipt, state, hreceipt, rfl⟩ := adopt_ok h
    refine record_gasUsed_le hc hreceipt ?_
    rw [UInt64.le_iff_toNat_le] at hle
    omega

section Loop

variable {txs txsToRemove : List Transaction}

theorem adoptTxs_wf (hwf : f.state.Wf) (h : adoptTxs f txs = some (f', txsToRemove)) :
    f'.state.Wf := by
  induction txs generalizing f txsToRemove with
  | nil =>
    obtain ⟨rfl, -⟩ := Prod.mk.inj (Option.some.inj h)
    exact hwf
  | cons tx txs ih =>
    obtain ⟨x, f₁, h₁, ⟨-, rfl, -⟩ | ⟨rest, hrest, -⟩⟩ := adoptTxs_cons h
    · exact adopt_wf hwf h₁
    · exact ih (adopt_wf hwf h₁) hrest

lemma adoptTxs_runtime (h : adoptTxs f txs = some (f', txsToRemove)) : f'.runtime = f.runtime := by
  induction txs generalizing f txsToRemove with
  | nil =>
    obtain ⟨rfl, -⟩ := Prod.mk.inj (Option.some.inj h)
    rfl
  | cons tx txs ih =>
    obtain ⟨x, f₁, h₁, ⟨-, rfl, -⟩ | ⟨rest, hrest, -⟩⟩ := adoptTxs_cons h
    · exact adopt_runtime h₁
    · rw [ih hrest, adopt_runtime h₁]

/-- The loop appends the transactions it adopts, in the pool's order, each with its receipt, and
collects for removal only transactions it was given. -/
theorem adoptTxs_records (hwf : f.state.Wf) (h : adoptTxs f txs = some (f', txsToRemove)) :
    ∃ adopted, adopted.Sublist txs ∧ f'.txs = f.txs ++ adopted ∧
      f'.receipts.length = f.receipts.length + adopted.length ∧ txsToRemove.Sublist txs := by
  induction txs generalizing f txsToRemove with
  | nil =>
    obtain ⟨rfl, rfl⟩ := Prod.mk.inj (Option.some.inj h)
    exact ⟨[], .slnil, by simp, by simp, .slnil⟩
  | cons tx txs ih =>
    obtain ⟨x, f₁, h₁, ⟨rfl, rfl, rfl⟩ | ⟨rest, hrest, hremove⟩⟩ := adoptTxs_cons h
    · -- the block is full: nothing was adopted
      obtain ⟨htxs, hreceipts⟩ | ⟨hx, -⟩ := adopt_records hwf h₁
      · exact ⟨[], List.nil_sublist _, by simp [htxs], by simp [hreceipts], List.nil_sublist _⟩
      · cases hx
    obtain ⟨adopted, hsub, htxs, hlen, hrm⟩ := ih (adopt_wf hwf h₁) hrest
    have hremove' : txsToRemove.Sublist (tx :: txs) := by
      rcases hremove with ⟨-, rfl⟩ | ⟨-, rfl⟩
      · exact hrm.cons tx
      · exact hrm.cons_cons tx
    rcases adopt_records hwf h₁ with ⟨htxs₁, hreceipts₁⟩ | ⟨-, htxs₁, hlen₁⟩
    · refine ⟨adopted, hsub.cons tx, by rw [htxs, htxs₁], by rw [hlen, hreceipts₁], hremove'⟩
    · refine ⟨tx :: adopted, hsub.cons_cons tx, by simp [htxs, htxs₁], ?_, hremove'⟩
      rw [hlen, hlen₁, List.length_cons]
      omega

/-- Packing the filling transaction adopts it, with its receipt, and removes nothing. -/
theorem adoptTxs_records_filling : ∃ f',
    adoptTxs packingFlow [fillingTx] = some (f', []) ∧
      ∃ adopted, adopted.Sublist [fillingTx] ∧ f'.txs = packingFlow.txs ++ adopted ∧
        f'.receipts.length = packingFlow.receipts.length + adopted.length ∧
        ([] : List Transaction).Sublist [fillingTx] := by
  have hrun : (adoptTxs packingFlow [fillingTx]).map (fun r => r.2.length) = some 0 := by
    decide +kernel
  obtain ⟨⟨f', txsToRemove⟩, h, hlen⟩ := Option.map_eq_some_iff.mp hrun
  obtain rfl := List.length_eq_zero_iff.mp hlen
  exact ⟨f', h, adoptTxs_records (wf_new _) h⟩

/-- While every transaction's gas and the block's limit add up within a `uint64`, the loop keeps
the block within its gas limit. -/
theorem adoptTxs_gasUsed_le (hwf : f.state.Wf) (hle : f.gasUsed ≤ f.runtime.ctx.GasLimit)
    (hgas : ∀ tx ∈ txs, tx.Gas.toNat + f.runtime.ctx.GasLimit.toNat < 2 ^ 64)
    (h : adoptTxs f txs = some (f', txsToRemove)) : f'.gasUsed ≤ f'.runtime.ctx.GasLimit := by
  induction txs generalizing f txsToRemove with
  | nil =>
    obtain ⟨rfl, -⟩ := Prod.mk.inj (Option.some.inj h)
    exact hle
  | cons tx txs ih =>
    have hle₁ {x f₁} (h₁ : f.Adopt tx = some (x, f₁)) := adopt_gasUsed_le hwf hle
      (hgas tx List.mem_cons_self) h₁
    obtain ⟨x, f₁, h₁, ⟨-, rfl, -⟩ | ⟨rest, hrest, -⟩⟩ := adoptTxs_cons h
    · exact hle₁ h₁
    · refine ih (adopt_wf hwf h₁) (hle₁ h₁) (fun tx' htx' => ?_) hrest
      rw [adopt_runtime h₁]
      exact hgas tx' (List.mem_cons_of_mem tx htx')

/-- Packing the filling transaction keeps the block within its gas limit. -/
theorem adoptTxs_gasUsed_le_filling : ∃ f',
    adoptTxs packingFlow [fillingTx] = some (f', []) ∧ f'.gasUsed ≤ f'.runtime.ctx.GasLimit := by
  have hrun : (adoptTxs packingFlow [fillingTx]).map (fun r => r.2.length) = some 0 := by
    decide +kernel
  obtain ⟨⟨f', txsToRemove⟩, h, hlen⟩ := Option.map_eq_some_iff.mp hrun
  obtain rfl := List.length_eq_zero_iff.mp hlen
  refine ⟨f', h, adoptTxs_gasUsed_le (wf_new _) (by decide) (fun tx htx => ?_) h⟩
  rw [List.mem_singleton.mp htx]
  decide

end Loop

end Flow

end AuthorityBlock.Packer
