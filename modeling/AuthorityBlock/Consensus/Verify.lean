import AuthorityBlock.Packer.Flow
import Mathlib

/-! The transaction loop of `Consensus.verifyBlock` (`consensus/validator.go`): each of the
block's transactions must be new and its dependency settled, then it runs on the parent's state;
the gas of the receipts must add up to the header's. The receipts root and the state root, hashes
of what the loop leaves, are not modelled.

`BlockTxsOk` says what the loop's checks are for: each transaction is new, neither earlier in
the block nor on the chain, and the one it depends on is an earlier transaction of the block that
did not revert, or one on the chain that did not. The checks refuse exactly the transactions that
would break it (`checkTx_eq_ok_iff`), so the validator accepts only such blocks
(`verifyBlock_blockTxsOk`) and fails on a check only at a transaction that breaks it
(`verifyBlock_error_cases`). The packer's loop packs only such blocks
(`adoptTxs_blockTxsOk`). -/

namespace AuthorityBlock.Consensus

open AuthorityBlock.Runtime Chain

/-- The errors of `verifyBlock`'s loop and gas check. -/
inductive VerifyError
  /-- "tx already exists" -/
  | txAlreadyExists
  /-- "tx dep broken" -/
  | txDepBroken
  /-- "tx dep reverted" -/
  | txDepReverted
  /-- "block gas used mismatch: want ..., have ..." -/
  | gasUsedMismatch (want actual : UInt64)
  /-- an error of the chain, returned as it is -/
  | chain (err : ChainError)
  /-- an error of `ExecuteTransaction`, returned as it is -/
  | execute (err : String)
deriving DecidableEq

def VerifyError.Error : VerifyError → String
  | .txAlreadyExists => "tx already exists"
  | .txDepBroken => "tx dep broken"
  | .txDepReverted => "tx dep reverted"
  | .gasUsedMismatch want actual =>
    "block gas used mismatch: want " ++ toString want ++ ", have " ++ toString actual
  | .chain err => ChainError.Error err
  | .execute err => err

/-- The `findTx` closure: whether the transaction is in the block so far or on the chain, and
whether it was reverted. -/
def findTx (processedTxs : Bytes32 → Option Bool) (chain : Chain) (txID : Bytes32) :
    Except ChainError (Bool × Bool) :=
  match processedTxs txID with
  | some reverted => .ok (true, reverted)
  | none =>
    match chain.getTransactionMeta txID with
    | .ok txMeta => .ok (true, txMeta.reverted)
    | .error err => if Packer.IsNotFound err then .ok (false, false) else .error err

/-- The checks of the loop before a transaction runs. -/
def checkTx (processedTxs : Bytes32 → Option Bool) (chain : Chain) (tx : Transaction) :
    Except VerifyError Unit :=
  -- check if tx existed
  match findTx processedTxs chain tx.ID with
  | .error err => .error (.chain err)
  | .ok (true, _) => .error .txAlreadyExists
  | .ok (false, _) =>
    -- check depended tx
    match tx.DependsOn with
    | none => .ok ()
    | some dep =>
      match findTx processedTxs chain dep with
      | .error err => .error (.chain err)
      | .ok (false, _) => .error .txDepBroken
      | .ok (true, true) => .error .txDepReverted
      | .ok (true, false) => .ok ()

/-- `processedTxs[tx.ID()] = receipt.Reverted`. -/
def recordTx (processedTxs : Bytes32 → Option Bool) (txID : Bytes32) (reverted : Bool) :
    Bytes32 → Option Bool :=
  fun id => if id = txID then some reverted else processedTxs id

/-- The loop over the block's transactions, with the gas used so far, the receipts and
`processedTxs`. A transaction runs on the state directly, with no checkpoint: an error of the run
ends the loop. -/
def verifyTxs (rt : AuthorityBlock.Runtime) (s : State) (totalGasUsed : UInt64)
    (receipts : List Runtime.Receipt)
    (processedTxs : Bytes32 → Option Bool) :
    List Transaction → Option (Except VerifyError (UInt64 × List Runtime.Receipt) × State)
  | [] => some (.ok (totalGasUsed, receipts), s)
  | tx :: txs =>
    match checkTx processedTxs rt.chain tx with
    | .error err => some (.error err, s)
    | .ok () =>
      match (rt.ExecuteTransaction tx).run.run s with
      | none => none
      | some (.error err, s) => some (.error (.execute err), s)
      | some (.ok receipt, s) =>
        verifyTxs rt s (totalGasUsed + receipt.GasUsed) (receipts ++ [receipt])
          (recordTx processedTxs tx.ID receipt.Reverted) txs

/-- `verifyBlock` up to its gas check, on the runtime of the block's header over the parent's
chain: the receipts and the state, or the error. -/
def verifyBlock (rt : AuthorityBlock.Runtime) (state : State) (txs : List Transaction)
    (headerGasUsed : UInt64) : Option (Except VerifyError (List Runtime.Receipt) × State) :=
  match verifyTxs rt state 0 [] (fun _ => none) txs with
  | none => none
  | some (.error err, s) => some (.error err, s)
  | some (.ok (totalGasUsed, receipts), s) =>
    if headerGasUsed ≠ totalGasUsed then
      some (.error (.gasUsedMismatch headerGasUsed totalGasUsed), s)
    else some (.ok receipts, s)

/-! ### The body's checks -/

/-- `hex.EncodeToString` of one byte: two lowercase hex digits. -/
def hexByte (x : UInt8) : String :=
  String.ofList (if x.toNat < 16 then '0' :: Nat.toDigits 16 x.toNat else Nat.toDigits 16 x.toNat)

/-- `String()` of an address or a hash: its bytes in hex behind "0x". -/
def hexString (b : List UInt8) : String := "0x" ++ String.join (b.map hexByte)

/-- What `validateBlockBody` reads of the consensus: the repository's chain tag, the `BLOCKLIST`
fork number, and `ablock.IsOriginBlocked`. -/
structure BodyConfig where
  ChainTag : UInt8
  BLOCKLIST : UInt32
  IsOriginBlocked : Address → Bool

/-- What `validateBlockBody` reads of the header. -/
structure BodyHeader where
  TxsRoot : Bytes32
  Number : UInt32
  TxsFeatures : UInt32

/-- The `consensusError`s of `validateBlockBody`. -/
inductive BodyError
  | txsRootMismatch (want actual : Bytes32)
  | signerUnavailable (err : String)
  | originBlocked (origin : Address)
  | chainTagMismatch (want actual : UInt8)
  | refFutureBlock (ref current : UInt32)
  | expired (ref current expiration : UInt32)
  | invalidTx (err : String)
deriving DecidableEq

def BodyError.Error : BodyError → String
  | .txsRootMismatch want actual =>
    "block txs root mismatch: want " ++ hexString want.bytes ++ ", have " ++ hexString actual.bytes
  | .signerUnavailable err => "tx signer unavailable: " ++ err
  | .originBlocked origin => "tx origin blocked got packed: " ++ hexString origin.bytes
  | .chainTagMismatch want actual =>
    "tx chain tag mismatch: want " ++ toString want ++ ", have " ++ toString actual
  | .refFutureBlock ref current =>
    "tx ref future block: ref " ++ toString ref ++ ", current " ++ toString current
  | .expired ref current expiration =>
    "tx expired: ref " ++ toString ref ++ ", current " ++ toString current ++ ", expiration " ++
      toString expiration
  | .invalidTx err => "invalid tx: " ++ err

/-- The loop body of `validateBlockBody`, for one transaction. -/
def checkBodyTx (c : BodyConfig) (header : BodyHeader) (tx : Transaction) :
    Except BodyError Unit :=
  match tx.Origin with
  | .error err => .error (.signerUnavailable err)
  | .ok origin =>
    if header.Number ≥ c.BLOCKLIST && c.IsOriginBlocked origin then .error (.originBlocked origin)
    else if tx.ChainTag ≠ c.ChainTag then .error (.chainTagMismatch c.ChainTag tx.ChainTag)
    else if header.Number < tx.refNum then .error (.refFutureBlock tx.refNum header.Number)
    else if tx.IsExpired header.Number then
      .error (.expired tx.refNum header.Number tx.Expiration)
    else (tx.TestFeatures header.TxsFeatures).mapError .invalidTx

/-- `validateBlockBody`: the header's transactions root, then every transaction in turn;
`rootHash` is `Transactions.RootHash`, a trie hash that is not modelled. -/
def validateBlockBody (c : BodyConfig) (rootHash : List Transaction → Bytes32)
    (header : BodyHeader) (txs : List Transaction) : Except BodyError Unit :=
  if header.TxsRoot ≠ rootHash txs then .error (.txsRootMismatch header.TxsRoot (rootHash txs))
  else txs.forM (checkBodyTx c header)

/-! ### What a block's transactions must be -/

/-- The transactions of a block so far, each with whether it reverted, as `processedTxs` holds
them. -/
def processed (done : List (Transaction × Bool)) : Bytes32 → Option Bool :=
  done.foldl (fun p e => recordTx p e.1.ID e.2) fun _ => none

/-- A transaction ID is new: no earlier transaction of the block has it, and the chain does not
know it. -/
def Fresh (chain : Chain) (done : List (Transaction × Bool)) (txID : Bytes32) : Prop :=
  txID ∉ done.map (·.1.ID) ∧
    ∃ err, chain.getTransactionMeta txID = .error err ∧ Packer.IsNotFound err = true

/-- What a transaction depends on is an earlier transaction of the block that did not revert,
or else one on the chain that did not. -/
def DepOk (chain : Chain) (done : List (Transaction × Bool)) (tx : Transaction) : Prop :=
  ∀ dep, tx.DependsOn = some dep →
    (dep, false) ∈ done.map (fun e => (e.1.ID, e.2)) ∨
      dep ∉ done.map (·.1.ID) ∧
        ∃ txMeta, chain.getTransactionMeta dep = .ok txMeta ∧ txMeta.reverted = false

/-- The transactions of a valid block, in order, each with whether it reverted. -/
inductive BlockTxsOk (chain : Chain) : List (Transaction × Bool) → Prop
  | nil : BlockTxsOk chain []
  | snoc {done : List (Transaction × Bool)} {tx : Transaction} (reverted : Bool) :
      BlockTxsOk chain done → Fresh chain done tx.ID → DepOk chain done tx →
      BlockTxsOk chain (done ++ [(tx, reverted)])

/-! ### The checks against the spec -/

section Processed

variable {done : List (Transaction × Bool)} {id : Bytes32}

lemma foldl_recordTx_eq_none {p : Bytes32 → Option Bool} :
    done.foldl (fun p e => recordTx p e.1.ID e.2) p id = none ↔
      p id = none ∧ id ∉ done.map (·.1.ID) := by
  induction done generalizing p with
  | nil => simp
  | cons e rest ih =>
    rw [List.foldl_cons, ih]
    by_cases h : id = e.1.ID
    · simp [recordTx, h]
    · simp [recordTx, h]

lemma foldl_recordTx_eq_some {p : Bytes32 → Option Bool} (hnd : (done.map (·.1.ID)).Nodup)
    {r : Bool} :
    done.foldl (fun p e => recordTx p e.1.ID e.2) p id = some r ↔
      (id, r) ∈ done.map (fun e => (e.1.ID, e.2)) ∨ id ∉ done.map (·.1.ID) ∧ p id = some r := by
  induction done generalizing p with
  | nil => simp
  | cons e rest ih =>
    rw [List.map_cons, List.nodup_cons] at hnd
    rw [List.foldl_cons, ih hnd.2]
    by_cases h : id = e.1.ID
    · -- the ID of the first transaction, which no later one has
      subst h
      have hpair : (e.1.ID, r) ∉ rest.map (fun e => (e.1.ID, e.2)) := fun hm => by
        obtain ⟨e', he', heq⟩ := List.mem_map.mp hm
        exact hnd.1 (List.mem_map.mpr ⟨e', he', (Prod.mk.inj heq).1⟩)
      simp [recordTx, hnd.1, hpair, eq_comm]
    · simp [recordTx, h]

lemma processed_eq_none_iff : processed done id = none ↔ id ∉ done.map (·.1.ID) := by
  simp [processed, foldl_recordTx_eq_none]

lemma processed_eq_some_iff (hnd : (done.map (·.1.ID)).Nodup) {r : Bool} :
    processed done id = some r ↔ (id, r) ∈ done.map (fun e => (e.1.ID, e.2)) := by
  simp [processed, foldl_recordTx_eq_some hnd]

lemma processed_snoc (tx : Transaction) (reverted : Bool) :
    processed (done ++ [(tx, reverted)]) = recordTx (processed done) tx.ID reverted := by
  simp [processed, List.foldl_append]

end Processed

lemma BlockTxsOk.nodup {chain : Chain} {done : List (Transaction × Bool)}
    (h : BlockTxsOk chain done) : (done.map (·.1.ID)).Nodup := by
  induction h with
  | nil => exact List.nodup_nil
  | snoc reverted _ hfresh _ ih =>
    rw [List.map_append, List.nodup_append]
    exact ⟨ih, List.nodup_singleton _, fun a ha b hb hab => hfresh.1 (by simp_all)⟩

section FindTx

variable {p : Bytes32 → Option Bool} {chain : Chain} {id : Bytes32}

lemma findTx_eq_ok_false {r : Bool} :
    findTx p chain id = .ok (false, r) ↔
      p id = none ∧ r = false ∧
        ∃ err, chain.getTransactionMeta id = .error err ∧ Packer.IsNotFound err = true := by
  unfold findTx
  rcases hp : p id with _ | reverted
  · rcases hm : chain.getTransactionMeta id with err | txMeta
    · by_cases hn : Packer.IsNotFound err = true <;> simp [hn]
    · simp
  · simp

lemma findTx_eq_ok_true_false :
    findTx p chain id = .ok (true, false) ↔
      p id = some false ∨ p id = none ∧
        ∃ txMeta, chain.getTransactionMeta id = .ok txMeta ∧ txMeta.reverted = false := by
  unfold findTx
  rcases hp : p id with _ | reverted
  · rcases hm : chain.getTransactionMeta id with err | txMeta
    · by_cases hn : Packer.IsNotFound err = true <;> simp [hn]
    · simp
  · simp

lemma checkTx_eq_ok_iff_findTx {tx : Transaction} :
    checkTx p chain tx = .ok () ↔
      (∃ r, findTx p chain tx.ID = .ok (false, r)) ∧
        ∀ dep, tx.DependsOn = some dep → findTx p chain dep = .ok (true, false) := by
  unfold checkTx
  rcases hf : findTx p chain tx.ID with err | ⟨_ | _, r⟩
  · simp
  · rcases hd : tx.DependsOn with _ | dep
    · simp
    · rcases hg : findTx p chain dep with err | ⟨_ | _, _ | _⟩ <;> simp [hg]
  · simp

end FindTx

/-- The checks refuse exactly the transactions that would break `BlockTxsOk`: they pass when
the transaction is new and its dependency settled, as `processedTxs` records the block so
far. -/
theorem checkTx_eq_ok_iff {chain : Chain} {done : List (Transaction × Bool)}
    (hnd : (done.map (·.1.ID)).Nodup) {tx : Transaction} :
    checkTx (processed done) chain tx = .ok () ↔ Fresh chain done tx.ID ∧ DepOk chain done tx := by
  rw [checkTx_eq_ok_iff_findTx]
  simp only [findTx_eq_ok_false, findTx_eq_ok_true_false, processed_eq_none_iff,
    processed_eq_some_iff hnd, exists_and_left, exists_eq_left, Fresh, DepOk]

/-! ### The loop -/

section Loop

variable {rt : AuthorityBlock.Runtime} {s s' : State} {gas₀ : UInt64}
  {receipts₀ : List Runtime.Receipt}

lemma verifyTxs_cons {p : Bytes32 → Option Bool} {tx : Transaction} {txs : List Transaction}
    {x : Except VerifyError (UInt64 × List Runtime.Receipt)}
    (h : verifyTxs rt s gas₀ receipts₀ p (tx :: txs) = some (x, s')) :
    (∃ err, checkTx p rt.chain tx = .error err ∧ x = .error err ∧ s' = s) ∨
    (checkTx p rt.chain tx = .ok () ∧ ∃ err,
      (rt.ExecuteTransaction tx).run.run s = some (.error err, s') ∧ x = .error (.execute err)) ∨
    (checkTx p rt.chain tx = .ok () ∧ ∃ receipt s₁,
      (rt.ExecuteTransaction tx).run.run s = some (.ok receipt, s₁) ∧
      verifyTxs rt s₁ (gas₀ + receipt.GasUsed) (receipts₀ ++ [receipt])
        (recordTx p tx.ID receipt.Reverted) txs = some (x, s')) := by
  unfold verifyTxs at h
  rcases hc : checkTx p rt.chain tx with err | ⟨⟨⟩⟩
  · rw [hc] at h
    obtain ⟨rfl, rfl⟩ := Prod.mk.inj (Option.some.inj h)
    exact .inl ⟨err, rfl, rfl, rfl⟩
  rw [hc] at h
  dsimp only at h
  rcases hrun : (rt.ExecuteTransaction tx).run.run s with _ | ⟨_ | receipt, s₁⟩
  · rw [hrun] at h
    cases h
  · rw [hrun] at h
    obtain ⟨rfl, rfl⟩ := Prod.mk.inj (Option.some.inj h)
    exact .inr (.inl ⟨rfl, _, rfl, rfl⟩)
  · rw [hrun] at h
    exact .inr (.inr ⟨rfl, receipt, s₁, rfl, h⟩)

lemma verifyTxs_ok {done : List (Transaction × Bool)} (hdone : BlockTxsOk rt.chain done)
    {txs : List Transaction} {gas : UInt64} {receipts : List Runtime.Receipt}
    (h : verifyTxs rt s gas₀ receipts₀ (processed done) txs = some (.ok (gas, receipts), s')) :
    ∃ rs : List Runtime.Receipt, receipts = receipts₀ ++ rs ∧ rs.length = txs.length ∧
      gas = gas₀ + (rs.map (·.GasUsed)).sum ∧
      BlockTxsOk rt.chain (done ++ txs.zip (rs.map (·.Reverted))) := by
  induction txs generalizing s gas₀ receipts₀ done with
  | nil =>
    obtain ⟨h₁, -⟩ := Prod.mk.inj (Option.some.inj h)
    obtain ⟨rfl, rfl⟩ := Prod.mk.inj (Except.ok.inj h₁)
    exact ⟨[], by simp, rfl, by simp, by simpa using hdone⟩
  | cons tx txs ih =>
    rcases verifyTxs_cons h with ⟨err, -, hx, -⟩ | ⟨-, err, -, hx⟩ | ⟨hc, receipt, s₁, -, hrest⟩
    · cases hx
    · cases hx
    -- the transaction passed the checks, so the block stays valid with it
    obtain ⟨hfresh, hdep⟩ := (checkTx_eq_ok_iff hdone.nodup).mp hc
    rw [← processed_snoc] at hrest
    obtain ⟨rs, rfl, hlen, rfl, hok⟩ := ih (hdone.snoc receipt.Reverted hfresh hdep) hrest
    refine ⟨receipt :: rs, by simp, by simp [hlen], ?_, by simpa using hok⟩
    simp [UInt64.add_assoc]

lemma verifyTxs_error {done : List (Transaction × Bool)} (hdone : BlockTxsOk rt.chain done)
    {txs : List Transaction} {err : VerifyError}
    (h : verifyTxs rt s gas₀ receipts₀ (processed done) txs = some (.error err, s')) :
    (∃ msg, err = .execute msg) ∨
      ∃ more tx rest, txs = more.map (·.1) ++ tx :: rest ∧ BlockTxsOk rt.chain (done ++ more) ∧
        ¬ (Fresh rt.chain (done ++ more) tx.ID ∧ DepOk rt.chain (done ++ more) tx) := by
  induction txs generalizing s gas₀ receipts₀ done with
  | nil => cases h
  | cons tx txs ih =>
    rcases verifyTxs_cons h with ⟨e, hc, hx, -⟩ | ⟨-, msg, -, hx⟩ | ⟨hc, receipt, s₁, -, hrest⟩
    · -- the checks refused the transaction
      cases hx
      refine .inr ⟨[], tx, txs, rfl, by simpa using hdone, fun hok => ?_⟩
      rw [List.append_nil, ← checkTx_eq_ok_iff hdone.nodup, hc] at hok
      cases hok
    · exact .inl ⟨msg, Except.error.inj hx⟩
    obtain ⟨hfresh, hdep⟩ := (checkTx_eq_ok_iff hdone.nodup).mp hc
    rw [← processed_snoc] at hrest
    rcases ih (hdone.snoc receipt.Reverted hfresh hdep) hrest with hexec | ⟨more, tx', rest, rfl, hok, hbad⟩
    · exact .inl hexec
    · refine .inr ⟨(tx, receipt.Reverted) :: more, tx', rest, rfl, ?_, ?_⟩
      · simpa using hok
      · simpa using hbad

end Loop

section Block

variable {rt : AuthorityBlock.Runtime} {state s' : State} {txs : List Transaction}
  {headerGasUsed : UInt64}

/-- A block the validator accepts has one receipt for each transaction, whose gas adds up to
the header's, and its transactions, each with whether it reverted, make a valid block: none is
on the chain or earlier in the block, and each dependency is an earlier transaction of the block
that did not revert, or one on the chain that did not. -/
theorem verifyBlock_blockTxsOk {receipts : List Runtime.Receipt}
    (h : verifyBlock rt state txs headerGasUsed = some (.ok receipts, s')) :
    receipts.length = txs.length ∧ headerGasUsed = (receipts.map (·.GasUsed)).sum ∧
      BlockTxsOk rt.chain (txs.zip (receipts.map (·.Reverted))) := by
  unfold verifyBlock at h
  rcases hv : verifyTxs rt state 0 [] (fun _ => none) txs with _ | ⟨_ | ⟨totalGasUsed, rs⟩, s⟩
  · rw [hv] at h
    cases h
  · rw [hv] at h
    cases h
  rw [hv] at h
  dsimp only at h
  split_ifs at h with hgas
  · cases h
  obtain ⟨hx, rfl⟩ := Prod.mk.inj (Option.some.inj h)
  cases hx
  obtain ⟨rs', rfl, hlen, rfl, hok⟩ := verifyTxs_ok BlockTxsOk.nil hv
  refine ⟨by simpa using hlen, by simpa using not_not.mp hgas, by simpa using hok⟩

/-- A block of one transaction that fills its gas limit: the validator accepts it. -/
theorem verifyBlock_blockTxsOk_filling : ∃ receipts s',
    verifyBlock Packer.Flow.packingFlow.runtime Packer.Flow.packingFlow.state [Packer.Flow.fillingTx] 10000000 =
      some (.ok receipts, s') ∧
    receipts.length = 1 ∧ (10000000 : UInt64) = (receipts.map (·.GasUsed)).sum ∧
      BlockTxsOk Packer.Flow.packingFlow.runtime.chain
        ([Packer.Flow.fillingTx].zip (receipts.map (·.Reverted))) := by
  have hrun : (verifyBlock Packer.Flow.packingFlow.runtime Packer.Flow.packingFlow.state [Packer.Flow.fillingTx]
      10000000).map (fun r => r.1.toBool) = some true := by
    decide +kernel
  obtain ⟨⟨x, s'⟩, h, hx⟩ := Option.map_eq_some_iff.mp hrun
  cases x with
  | error err => cases hx
  | ok receipts => exact ⟨receipts, s', h, verifyBlock_blockTxsOk h⟩

/-- Every block the validator refuses is refused for a reason: a transaction's run failed, the
gas of a valid block's receipts does not add up to the header's, or a transaction after a valid
prefix is not new or its dependency is not settled. -/
theorem verifyBlock_error_cases {err : VerifyError}
    (h : verifyBlock rt state txs headerGasUsed = some (.error err, s')) :
    (∃ msg, err = .execute msg) ∨
      (∃ receipts : List Runtime.Receipt,
        err = .gasUsedMismatch headerGasUsed (receipts.map (·.GasUsed)).sum ∧
        headerGasUsed ≠ (receipts.map (·.GasUsed)).sum ∧
        BlockTxsOk rt.chain (txs.zip (receipts.map (·.Reverted)))) ∨
      ∃ done tx rest, txs = done.map (·.1) ++ tx :: rest ∧ BlockTxsOk rt.chain done ∧
        ¬ (Fresh rt.chain done tx.ID ∧ DepOk rt.chain done tx) := by
  unfold verifyBlock at h
  rcases hv : verifyTxs rt state 0 [] (fun _ => none) txs with _ | ⟨e | ⟨totalGasUsed, rs⟩, s⟩
  · rw [hv] at h
    cases h
  · rw [hv] at h
    obtain ⟨hx, -⟩ := Prod.mk.inj (Option.some.inj h)
    cases hx
    rcases verifyTxs_error BlockTxsOk.nil hv with hexec | ⟨more, tx, rest, htxs, hok, hbad⟩
    · exact .inl hexec
    · exact .inr (.inr ⟨more, tx, rest, htxs, by simpa using hok, by simpa using hbad⟩)
  rw [hv] at h
  dsimp only at h
  split_ifs at h with hgas
  · -- the loop passed: the block's transactions are valid, and only the gas is off
    obtain ⟨hx, -⟩ := Prod.mk.inj (Option.some.inj h)
    cases hx
    obtain ⟨rs', hrs, -, rfl, hok⟩ := verifyTxs_ok BlockTxsOk.nil hv
    rw [List.nil_append] at hrs
    subst hrs
    refine .inr (.inl ⟨rs, by simp, by simpa using hgas, by simpa using hok⟩)
  · cases h

/-- A block that holds one transaction twice: the validator refuses the second as known. -/
theorem verifyBlock_error_cases_twice : ∃ s',
    verifyBlock Packer.Flow.packingFlow.runtime Packer.Flow.packingFlow.state
      [Packer.Flow.fillingTx, Packer.Flow.fillingTx] 20000000 = some (.error .txAlreadyExists, s') ∧
    ((∃ msg, VerifyError.txAlreadyExists = .execute msg) ∨
      (∃ receipts : List Runtime.Receipt,
        VerifyError.txAlreadyExists = .gasUsedMismatch 20000000 (receipts.map (·.GasUsed)).sum ∧
        (20000000 : UInt64) ≠ (receipts.map (·.GasUsed)).sum ∧
        BlockTxsOk Packer.Flow.packingFlow.runtime.chain
          ([Packer.Flow.fillingTx, Packer.Flow.fillingTx].zip (receipts.map (·.Reverted)))) ∨
      ∃ done tx rest, [Packer.Flow.fillingTx, Packer.Flow.fillingTx] = done.map (·.1) ++ tx :: rest ∧
        BlockTxsOk Packer.Flow.packingFlow.runtime.chain done ∧
        ¬ (Fresh Packer.Flow.packingFlow.runtime.chain done tx.ID ∧
          DepOk Packer.Flow.packingFlow.runtime.chain done tx)) := by
  have hrun : (verifyBlock Packer.Flow.packingFlow.runtime Packer.Flow.packingFlow.state
      [Packer.Flow.fillingTx, Packer.Flow.fillingTx] 20000000).map
      (fun r => match r.1 with
        | .error err => some err
        | .ok _ => none) = some (some .txAlreadyExists) := by
    decide +kernel
  obtain ⟨⟨x, s'⟩, h, hx⟩ := Option.map_eq_some_iff.mp hrun
  cases x with
  | ok receipts => cases hx
  | error err =>
    cases hx
    exact ⟨s', h, verifyBlock_error_cases h⟩

end Block

/-! ### The body's checks, spelled out -/

lemma forM_eq_ok {ε α : Type} (f : α → Except ε Unit) :
    ∀ l : List α, l.forM f = .ok () ↔ ∀ a ∈ l, f a = .ok ()
  | [] => ⟨fun _ _ ha => absurd ha List.not_mem_nil, fun _ => rfl⟩
  | a :: l => by
    change (f a >>= fun _ => l.forM f) = .ok () ↔ _
    rw [List.forall_mem_cons, ← forM_eq_ok f l]
    cases f a with
    | error e => exact ⟨fun h => (by cases h), fun ⟨h, _⟩ => (by cases h)⟩
    | ok u => exact ⟨fun h => ⟨rfl, h⟩, fun ⟨_, h⟩ => h⟩

lemma validateBlockBody_eq_ok {c : BodyConfig} {rootHash : List Transaction → Bytes32}
    {header : BodyHeader} {txs : List Transaction} :
    validateBlockBody c rootHash header txs = .ok () ↔
      header.TxsRoot = rootHash txs ∧ ∀ tx ∈ txs, checkBodyTx c header tx = .ok () := by
  unfold validateBlockBody
  split_ifs with hroot
  · exact ⟨fun h => (by cases h), fun ⟨h, _⟩ => absurd h hroot⟩
  · rw [forM_eq_ok]
    exact ⟨fun h => ⟨not_not.mp hroot, h⟩, fun ⟨_, h⟩ => h⟩

/-! ### The packer's blocks -/

section Packer

open Packer

lemma checkTx_of_flow {f : Flow} {tx : Transaction} (h : f.checkTx tx = .ok ()) :
    checkTx f.processedTxs f.runtime.chain tx = .ok () := by
  unfold Flow.checkTx at h
  split at h
  · cases h
  split at h
  · cases h
  split at h
  · cases h
  split at h
  · cases h
  split at h
  · cases h
  split at h
  · split at h <;> cases h
  -- the lookups of the flow, which are the validator's
  obtain ⟨⟨found, reverted⟩, hf, h⟩ := Rlp.bind_eq_ok h
  dsimp only at h
  split_ifs at h with hfound
  · cases h
  obtain rfl : found = false := by simpa using hfound
  rw [checkTx_eq_ok_iff_findTx]
  refine ⟨⟨reverted, Rlp.mapError_eq_ok hf⟩, fun dep hdep => ?_⟩
  rw [hdep] at h
  obtain ⟨⟨found', reverted'⟩, hf', h⟩ := Rlp.bind_eq_ok h
  dsimp only at h
  -- the dependency was found and not reverted, or the flow would have refused the transaction
  split_ifs at h with hnot hrev
  obtain rfl : found' = true := by simpa using hnot
  obtain rfl : reverted' = false := by simpa using hrev
  exact Rlp.mapError_eq_ok hf'

lemma checkBodyTx_of_flow {f : Flow} {tx : Transaction} {origin : Address} (root : Bytes32)
    (h : f.checkTx tx = .ok ()) (horigin : tx.Origin = .ok origin) :
    checkBodyTx ⟨f.packer.ChainTag, f.packer.BLOCKLIST, f.packer.IsOriginBlocked⟩
      ⟨root, f.Number, f.features⟩ tx = .ok () := by
  unfold Flow.checkTx at h
  simp only [Flow.originOrZero, horigin] at h
  split at h
  · cases h
  rename_i hblock
  split at h
  · cases h
  rename_i hfeatures
  split at h
  · cases h
  rename_i htag
  split at h
  · cases h
  rename_i hnow
  split at h
  · cases h
  rename_i hexpired
  simp only [checkBodyTx, horigin, hblock, htag, hnow, hexpired, hfeatures]
  rfl

/-- What a flow has recorded agrees: one receipt for each transaction, `processedTxs` holds the
transactions with whether they reverted, and they make a valid block on the runtime's chain. -/
structure FlowRecords (f : Flow) : Prop where
  length : f.receipts.length = f.txs.length
  processedTxs : f.processedTxs = processed (f.txs.zip (f.receipts.map (·.Reverted)))
  valid : BlockTxsOk f.runtime.chain (f.txs.zip (f.receipts.map (·.Reverted)))

lemma flowRecords_newFlow (packer : Config) (rt : AuthorityBlock.Runtime) (state : State)
    (features : UInt32) : FlowRecords (newFlow packer rt state features) :=
  ⟨rfl, rfl, .nil⟩

lemma FlowRecords.adopt {f f' : Flow} {tx : Transaction} {x : Except AdoptError Unit}
    (hwf : f.state.Wf) (hr : FlowRecords f) (h : f.Adopt tx = some (x, f')) : FlowRecords f' := by
  rcases x with err | ⟨⟨⟩⟩
  · have hu := Flow.adopt_error_unchanged hwf h
    refine ⟨?_, ?_, ?_⟩
    · rw [hu.receipts, hu.txs]
      exact hr.length
    · rw [hu.processedTxs, hu.txs, hu.receipts]
      exact hr.processedTxs
    · rw [Flow.adopt_runtime h, hu.txs, hu.receipts]
      exact hr.valid
  obtain ⟨hc, receipt, state, -, rfl⟩ := Flow.adopt_ok h
  have hzip : (f.txs ++ [tx]).zip ((f.receipts ++ [receipt]).map (·.Reverted)) =
      f.txs.zip (f.receipts.map (·.Reverted)) ++ [(tx, receipt.Reverted)] := by
    rw [List.map_append, List.zip_append (by simpa using hr.length.symm)]
    rfl
  have hcheck := checkTx_of_flow hc
  rw [hr.processedTxs, checkTx_eq_ok_iff hr.valid.nodup] at hcheck
  refine ⟨by simp [Flow.record, hr.length], ?_, ?_⟩
  · change recordTx f.processedTxs tx.ID receipt.Reverted = _
    rw [Flow.record, hzip, processed_snoc, hr.processedTxs]
  · rw [Flow.record, hzip]
    exact hr.valid.snoc receipt.Reverted hcheck.1 hcheck.2

lemma FlowRecords.adoptTxs {f f' : Flow} {txs txsToRemove : List Transaction}
    (hwf : f.state.Wf) (hr : FlowRecords f) (h : Flow.adoptTxs f txs = some (f', txsToRemove)) :
    FlowRecords f' := by
  induction txs generalizing f txsToRemove with
  | nil =>
    obtain ⟨rfl, -⟩ := Prod.mk.inj (Option.some.inj h)
    exact hr
  | cons tx txs ih =>
    obtain ⟨x, f₁, h₁, ⟨-, rfl, -⟩ | ⟨rest, hrest, -⟩⟩ := Flow.adoptTxs_cons h
    · exact hr.adopt hwf h₁
    · exact ih (Flow.adopt_wf hwf h₁) (hr.adopt hwf h₁) hrest

/-- The packer's loop packs a valid block: from a new flow, the transactions it adopts, each with
whether its run reverted, are new and have their dependencies settled on the runtime's chain,
and each has one receipt. -/
theorem adoptTxs_blockTxsOk (packer : Config) (rt : AuthorityBlock.Runtime) {state : State}
    (features : UInt32) (hwf : state.Wf) {txs txsToRemove : List Transaction} {f : Flow}
    (h : Flow.adoptTxs (newFlow packer rt state features) txs = some (f, txsToRemove)) :
    f.receipts.length = f.txs.length ∧
      BlockTxsOk rt.chain (f.txs.zip (f.receipts.map (·.Reverted))) := by
  have hr := (flowRecords_newFlow packer rt state features).adoptTxs hwf h
  have hvalid := hr.valid
  rw [Flow.adoptTxs_runtime h] at hvalid
  exact ⟨hr.length, hvalid⟩

/-- The packer adopts the filling transaction into a valid block. -/
theorem adoptTxs_blockTxsOk_filling : ∃ f,
    Flow.adoptTxs Flow.packingFlow [Flow.fillingTx] = some (f, []) ∧
      f.receipts.length = f.txs.length ∧
      BlockTxsOk Flow.packingFlow.runtime.chain (f.txs.zip (f.receipts.map (·.Reverted))) := by
  have hrun : (Flow.adoptTxs Flow.packingFlow [Flow.fillingTx]).map (fun r => r.2.length) =
      some 0 := by
    decide +kernel
  obtain ⟨⟨f, txsToRemove⟩, h, hlen⟩ := Option.map_eq_some_iff.mp hrun
  obtain rfl := List.length_eq_zero_iff.mp hlen
  have hwf : Flow.packingFlow.state.Wf := State.wf_new _
  have h' : Flow.adoptTxs (newFlow Flow.packingFlow.packer Flow.packingFlow.runtime
      Flow.packingFlow.state Flow.packingFlow.features) [Flow.fillingTx] = some (f, []) := h
  exact ⟨f, h, adoptTxs_blockTxsOk _ _ _ hwf h'⟩

end Packer

end AuthorityBlock.Consensus
