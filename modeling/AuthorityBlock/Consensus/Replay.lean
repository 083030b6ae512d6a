import AuthorityBlock.Consensus.Verify
import AuthorityBlock.Runtime.Frame
import Mathlib

/-! The validator replays what the packer packed. The packer runs each transaction after a
checkpoint of its own, which it reverts when the run fails and keeps when the transaction is
adopted; the validator runs the block's transactions on the parent's state directly. The two
states hold the same world throughout, each with its own snapshots below, and on such states a
transaction runs alike (`executeTransaction_sameWorld`). So the validator accepts every block the
packer packs, with the packer's receipts and gas, and ends with the world the packer ended with
(`verifyBlock_accepts_packed`). Each transaction the packer adopts passed its own checks, which
contain the validator's checks of the block's body, and its origin recovers, or its run would
have failed: so a packed block's body passes too (`validateBlockBody_accepts_packed`). -/

namespace AuthorityBlock.Consensus

open AuthorityBlock.Runtime State Hoare Packer

/-- Two states that hold the same world run a transaction alike, whatever snapshots each has
saved below: the same receipt or the same error, and states that again hold one world. -/
theorem executeTransaction_sameWorld (rt : AuthorityBlock.Runtime) (hevm : rt.evm.ReadsState)
    (tx : Transaction) {s₁ s₂ t₁ : State} {x : Except String Runtime.Receipt}
    (hs : SameWorld s₁ s₂) (hrun : (rt.ExecuteTransaction tx).run.run s₁ = some (x, t₁)) :
    ∃ t₂, (rt.ExecuteTransaction tx).run.run s₂ = some (x, t₂) ∧ SameWorld t₁ t₂ := by
  obtain ⟨P₁, P₂, hframed⟩ := hs.framed
  obtain ⟨x₂, t₂, hrun₂, hx, ht⟩ := rt.sim_executeTransaction hevm tx s₁ s₂ hframed x t₁ hrun
  rw [← hx.eq] at hrun₂
  exact ⟨t₂, hrun₂, ht.sameWorld⟩

lemma loopEVM_readsState : Flow.loopEVM.ReadsState := by
  intro ctx txCtx clause index gas s s' h
  simp only [Flow.loopEVM, h.getCode]

/-- The filling transaction, run after the packer's checkpoint and on the state itself. -/
theorem executeTransaction_sameWorld_checkpoint : ∃ x t₁,
    (Flow.packingFlow.runtime.ExecuteTransaction Flow.fillingTx).run.run
      Flow.packingFlow.state.newCheckpoint.1 = some (x, t₁) ∧
    ∃ t₂, (Flow.packingFlow.runtime.ExecuteTransaction Flow.fillingTx).run.run
      Flow.packingFlow.state = some (x, t₂) ∧ SameWorld t₁ t₂ := by
  have hrun : ((Flow.packingFlow.runtime.ExecuteTransaction Flow.fillingTx).run.run
      Flow.packingFlow.state.newCheckpoint.1).map (fun r => r.1.toBool) = some true := by
    decide +kernel
  obtain ⟨⟨x, t₁⟩, h, -⟩ := Option.map_eq_some_iff.mp hrun
  have hevm : Flow.packingFlow.runtime.evm.ReadsState := loopEVM_readsState
  have hr : Refines Flow.packingFlow.state _ := refines_new _
  have hs : SameWorld Flow.packingFlow.state.newCheckpoint.1 Flow.packingFlow.state :=
    ⟨_, _, _, hr.newCheckpoint, hr⟩
  exact ⟨x, t₁, h, executeTransaction_sameWorld _ hevm _ hs h⟩

/-! ### The packer's loop against the validator's -/

section Replay

variable {f f₁ f' : Flow} {tx : Transaction} {x : Except AdoptError Unit} {s : State}

lemma adopt_error_sameWorld (hs : SameWorld f.state s) {err : AdoptError}
    (h : f.Adopt tx = some (.error err, f₁)) : SameWorld f₁.state s := by
  obtain ⟨S₁, S₂, w, h₁, h₂⟩ := hs
  rcases Flow.adopt_cases h with ⟨_, -, -, rfl⟩ | ⟨-, _, _, _, hrun, hrev, -, rfl⟩ |
    ⟨-, _, _, -, hx, -⟩
  · exact ⟨S₁, S₂, w, h₁, h₂⟩
  · -- the run's error was reverted to the checkpoint
    exact ⟨S₁, S₂, w, revert_refines (fun _ => f.runtime.keeps_executeTransaction tx) h₁ hrun hrev,
      h₂⟩
  · cases hx

lemma adopt_replay (hevm : f.runtime.evm.ReadsState) (hs : SameWorld f.state s)
    (h : f.Adopt tx = some (x, f₁)) :
    (∃ err, x = .error err) ∧ Flow.Unchanged f f₁ ∧ SameWorld f₁.state s ∨
      x = .ok () ∧ f₁.txs = f.txs ++ [tx] ∧ ∃ s₁, SameWorld f₁.state s₁ ∧ ∀ rest,
        verifyTxs f.runtime s f.gasUsed f.receipts f.processedTxs (tx :: rest) =
          verifyTxs f.runtime s₁ f₁.gasUsed f₁.receipts f₁.processedTxs rest := by
  have hwf : f.state.Wf := by
    obtain ⟨_, _, _, h₁, -⟩ := hs
    exact h₁.wf
  rcases x with err | ⟨⟨⟩⟩
  · exact .inl ⟨⟨err, rfl⟩, Flow.adopt_error_unchanged hwf h, adopt_error_sameWorld hs h⟩
  rcases Flow.adopt_cases h with ⟨_, -, hx, -⟩ | ⟨-, _, _, _, -, -, hx, -⟩ |
    ⟨hc, receipt, t₁, hrun, -, rfl⟩
  · cases hx
  · cases hx
  -- the validator runs the transaction on its own state, with the same receipt
  obtain ⟨P₁, P₂, hframed⟩ := hs.newCheckpoint_left.framed
  obtain ⟨x₂, t₂, hrun₂, hx, ht⟩ := f.runtime.sim_executeTransaction hevm tx _ _ hframed _ _ hrun
  rw [← hx.eq] at hrun₂
  refine .inr ⟨rfl, rfl, t₂, ht.sameWorld, fun rest => ?_⟩
  simp only [verifyTxs, checkTx_of_flow hc, hrun₂]
  rfl

variable {txs txsToRemove : List Transaction}

lemma adoptTxs_replay (hevm : f.runtime.evm.ReadsState) (hs : SameWorld f.state s)
    (h : Flow.adoptTxs f txs = some (f', txsToRemove)) :
    ∃ adopted s', f'.txs = f.txs ++ adopted ∧
      verifyTxs f.runtime s f.gasUsed f.receipts f.processedTxs adopted =
        some (.ok (f'.gasUsed, f'.receipts), s') ∧ SameWorld f'.state s' := by
  induction txs generalizing f s txsToRemove with
  | nil =>
    obtain ⟨rfl, -⟩ := Prod.mk.inj (Option.some.inj h)
    exact ⟨[], s, by simp, rfl, hs⟩
  | cons tx txs ih =>
    obtain ⟨x, f₁, h₁, hcase⟩ := Flow.adoptTxs_cons h
    have hrt := Flow.adopt_runtime h₁
    have hevm₁ : f₁.runtime.evm.ReadsState := by
      rw [hrt]
      exact hevm
    rcases adopt_replay hevm hs h₁ with ⟨⟨err, rfl⟩, hu, hs₁⟩ | ⟨rfl, htxs, s₁, hs₁, hstep⟩
    · -- not adopted: the validator never sees the transaction
      rcases hcase with ⟨-, rfl, -⟩ | ⟨rest, hrest, -⟩
      · refine ⟨[], s, by simp [hu.txs], ?_, hs₁⟩
        rw [hu.gasUsed, hu.receipts]
        rfl
      · obtain ⟨adopted, s', htxs', hv, hs'⟩ := ih hevm₁ hs₁ hrest
        refine ⟨adopted, s', by rw [htxs', hu.txs], ?_, hs'⟩
        rw [hrt, hu.gasUsed, hu.receipts, hu.processedTxs] at hv
        exact hv
    · rcases hcase with ⟨hx, -, -⟩ | ⟨rest, hrest, -⟩
      · cases hx
      obtain ⟨adopted, s', htxs', hv, hs'⟩ := ih hevm₁ hs₁ hrest
      refine ⟨tx :: adopted, s', by simp [htxs', htxs], ?_, hs'⟩
      rw [hstep, ← hrt]
      exact hv

end Replay

/-- The validator accepts every block the packer packs: from a new flow on the parent's state,
replaying the adopted transactions on that state, with the packer's gas as the header's, gives
the packer's receipts, and leaves the world the packer left. -/
theorem verifyBlock_accepts_packed (packer : Config) (rt : AuthorityBlock.Runtime)
    (features : UInt32) {state : State} (hwf : state.Wf) (hevm : rt.evm.ReadsState)
    {txs txsToRemove : List Transaction} {f : Flow}
    (h : Flow.adoptTxs (newFlow packer rt state features) txs = some (f, txsToRemove)) :
    ∃ s', verifyBlock rt state f.txs f.gasUsed = some (.ok f.receipts, s') ∧
      SameWorld f.state s' := by
  obtain ⟨r, hr⟩ := hwf.refines
  have hs : SameWorld state state := ⟨_, _, _, hr, hr⟩
  obtain ⟨adopted, s', htxs, hv, hs'⟩ := adoptTxs_replay hevm hs h
  -- from a new flow, the block is what the loop adopted
  have htxs' : f.txs = adopted := by simpa [newFlow] using htxs
  have hv' : verifyTxs rt state 0 [] (fun _ => none) adopted = some (.ok (f.gasUsed, f.receipts), s') :=
    hv
  refine ⟨s', ?_, hs'⟩
  rw [verifyBlock, htxs', hv']
  simp

/-- The packer adopts the filling transaction, and the validator accepts the block. -/
theorem verifyBlock_accepts_packed_filling : ∃ f,
    Flow.adoptTxs Flow.packingFlow [Flow.fillingTx] = some (f, []) ∧
      ∃ s', verifyBlock Flow.packingFlow.runtime Flow.packingFlow.state f.txs f.gasUsed =
        some (.ok f.receipts, s') ∧ SameWorld f.state s' := by
  have hrun : (Flow.adoptTxs Flow.packingFlow [Flow.fillingTx]).map (fun r => r.2.length) =
      some 0 := by
    decide +kernel
  obtain ⟨⟨f, txsToRemove⟩, h, hlen⟩ := Option.map_eq_some_iff.mp hrun
  obtain rfl := List.length_eq_zero_iff.mp hlen
  have hwf : Flow.packingFlow.state.Wf := State.wf_new _
  have hevm : Flow.packingFlow.runtime.evm.ReadsState := loopEVM_readsState
  have h' : Flow.adoptTxs (newFlow Flow.packingFlow.packer Flow.packingFlow.runtime
      Flow.packingFlow.state Flow.packingFlow.features) [Flow.fillingTx] = some (f, []) := h
  exact ⟨f, h, verifyBlock_accepts_packed _ _ _ hwf hevm h'⟩

/-! ### The body of a packed block -/

lemma executeTransaction_origin (rt : AuthorityBlock.Runtime) (tx : Transaction) :
    Returns (rt.ExecuteTransaction tx) fun _ => ∃ origin, tx.Origin = .ok origin := by
  refine Returns.bind (returns_liftExcept _) fun r hr => ?_
  obtain ⟨origin, horigin, -⟩ := Rlp.bind_eq_ok hr
  exact fun _ _ _ _ _ _ _ => ⟨origin, horigin⟩

/-- Every transaction of the flow passes the body's check of the block the flow packs. -/
def BodyChecked (f : Flow) : Prop :=
  ∀ root, ∀ tx ∈ f.txs, checkBodyTx ⟨f.packer.ChainTag, f.packer.BLOCKLIST, f.packer.IsOriginBlocked⟩
    ⟨root, f.Number, f.features⟩ tx = .ok ()

section Body

variable {f f' : Flow} {tx : Transaction} {x : Except AdoptError Unit}
  {txs txsToRemove : List Transaction}

lemma adopt_config (h : f.Adopt tx = some (x, f')) :
    f'.packer = f.packer ∧ f'.features = f.features := by
  rcases Flow.adopt_cases h with ⟨_, -, -, rfl⟩ | ⟨-, _, _, _, -, -, -, rfl⟩ | ⟨-, _, _, -, -, rfl⟩ <;>
    exact ⟨rfl, rfl⟩

lemma adoptTxs_config (h : Flow.adoptTxs f txs = some (f', txsToRemove)) :
    f'.packer = f.packer ∧ f'.features = f.features := by
  induction txs generalizing f txsToRemove with
  | nil =>
    obtain ⟨rfl, -⟩ := Prod.mk.inj (Option.some.inj h)
    exact ⟨rfl, rfl⟩
  | cons tx txs ih =>
    obtain ⟨x, f₁, h₁, ⟨-, rfl, -⟩ | ⟨rest, hrest, -⟩⟩ := Flow.adoptTxs_cons h
    · exact adopt_config h₁
    · obtain ⟨hp, hf⟩ := adopt_config h₁
      obtain ⟨hp', hf'⟩ := ih hrest
      exact ⟨hp'.trans hp, hf'.trans hf⟩

lemma adopt_bodyChecked (hb : BodyChecked f) (h : f.Adopt tx = some (x, f')) : BodyChecked f' := by
  rcases Flow.adopt_cases h with ⟨_, -, -, rfl⟩ | ⟨-, _, _, _, -, -, -, rfl⟩ |
    ⟨hc, receipt, t₁, hrun, -, rfl⟩
  · exact hb
  · exact hb
  intro root tx' htx'
  simp only [Flow.record, List.mem_append, List.mem_singleton] at htx'
  rcases htx' with hold | rfl
  · exact hb root tx' hold
  -- the adopted transaction ran, so its origin recovers
  obtain ⟨origin, horigin⟩ :=
    executeTransaction_origin f.runtime tx' _ trivial _ _ hrun receipt rfl
  exact checkBodyTx_of_flow (f := f) root hc horigin

lemma adoptTxs_bodyChecked (hb : BodyChecked f) (h : Flow.adoptTxs f txs = some (f', txsToRemove)) :
    BodyChecked f' := by
  induction txs generalizing f txsToRemove with
  | nil =>
    obtain ⟨rfl, -⟩ := Prod.mk.inj (Option.some.inj h)
    exact hb
  | cons tx txs ih =>
    obtain ⟨x, f₁, h₁, ⟨-, rfl, -⟩ | ⟨rest, hrest, -⟩⟩ := Flow.adoptTxs_cons h
    · exact adopt_bodyChecked hb h₁
    · exact ih (adopt_bodyChecked hb h₁) hrest

end Body

/-- Every block the packer packs passes the validator's checks of its body: its header carries
the root of its transactions, the number of the runtime's block and the flow's features, and
each transaction's origin recovers and is not blocked, and its chain tag, reference, expiry and
features fit the block. -/
theorem validateBlockBody_accepts_packed (packer : Config) (rt : AuthorityBlock.Runtime)
    (state : State) (features : UInt32) (rootHash : List Transaction → Bytes32)
    {txs txsToRemove : List Transaction} {f : Flow}
    (h : Flow.adoptTxs (newFlow packer rt state features) txs = some (f, txsToRemove)) :
    validateBlockBody ⟨packer.ChainTag, packer.BLOCKLIST, packer.IsOriginBlocked⟩ rootHash
      ⟨rootHash f.txs, rt.ctx.Number, features⟩ f.txs = .ok () := by
  -- a new flow holds no transaction yet
  have hb := adoptTxs_bodyChecked (fun _ _ htx => absurd htx List.not_mem_nil) h
  obtain ⟨hpacker, hfeatures⟩ := adoptTxs_config h
  have hrt := Flow.adoptTxs_runtime h
  refine validateBlockBody_eq_ok.mpr ⟨rfl, fun tx htx => ?_⟩
  have hcheck := hb (rootHash f.txs) tx htx
  rwa [hpacker, hfeatures, Flow.Number, hrt] at hcheck

/-- The block packed with the filling transaction passes the body's checks. -/
theorem validateBlockBody_accepts_packed_filling : ∃ f,
    Flow.adoptTxs Flow.packingFlow [Flow.fillingTx] = some (f, []) ∧
      validateBlockBody ⟨0, 0, fun _ => false⟩ (fun _ => Bytes32.zero)
        ⟨Bytes32.zero, 1, 0⟩ f.txs = .ok () := by
  have hrun : (Flow.adoptTxs Flow.packingFlow [Flow.fillingTx]).map (fun r => r.2.length) =
      some 0 := by
    decide +kernel
  obtain ⟨⟨f, txsToRemove⟩, h, hlen⟩ := Option.map_eq_some_iff.mp hrun
  obtain rfl := List.length_eq_zero_iff.mp hlen
  have h' : Flow.adoptTxs (newFlow Flow.packingFlow.packer Flow.packingFlow.runtime
      Flow.packingFlow.state Flow.packingFlow.features) [Flow.fillingTx] = some (f, []) := h
  exact ⟨f, h, validateBlockBody_accepts_packed _ _ _ _ (fun _ => Bytes32.zero) h'⟩

end AuthorityBlock.Consensus
