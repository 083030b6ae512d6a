import AuthorityBlock.Runtime.Executor
import AuthorityBlock.Lib.Relational

/-! What the runtime does to the state depends on its world only, not on the snapshots saved
below it. Two states that hold the same world, each with its own stack of snapshots below
(`SameWorld`), run a transaction alike: the same receipt or error, and states that again hold one
world (`executeTransaction_sameWorld`). So the packer, which runs a transaction after a
checkpoint of its own, and the validator, which runs it on the state directly, see one result.

Inside the run the two stacks grow alike: each holds the same snapshots `T` above its own
bottom, `P₁` or `P₂` (`Framed`), and a checkpoint's revision on one stack is that on the other
shifted by the bottoms' lengths (`SameRevision`). Every operation of the runtime keeps this, the
reads answer alike, and the EVM is assumed to read the state only through its getters
(`EVM.ReadsState`). -/

namespace AuthorityBlock.State

lemma Reference.apply_of_isWrite_frame (keccak256 : List UInt8 → List UInt8) {op : Op}
    (h : op.IsWrite) (w : Address → Plain) :
    ∃ w', ∀ S, Reference.apply keccak256 op ⟨S, w⟩ = some ⟨S, w'⟩ := by
  cases op <;> simp [Reference.apply, Reference.modify, Op.IsWrite] at h ⊢

lemma Reference.revertTo_frame (T : List (Address → Plain)) (w : Address → Plain) (j : ℕ) :
    ∃ T' w', ∀ P : List (Address → Plain),
      Reference.revertTo ⟨P ++ T, w⟩ (P.length + j + 1) = some ⟨P ++ T', w'⟩ := by
  rcases hT : T[j]? with _ | w'
  · refine ⟨T, w, fun P => ?_⟩
    have hget : (P ++ T)[P.length + j]? = none := by
      rw [List.getElem?_append_right (by omega), Nat.add_sub_cancel_left, hT]
    simp only [Reference.revertTo, Nat.add_one_ne_zero, if_false, Nat.add_sub_cancel, hget]
  · refine ⟨T.take j, w', fun P => ?_⟩
    have hget : (P ++ T)[P.length + j]? = some w' := by
      rw [List.getElem?_append_right (by omega), Nat.add_sub_cancel_left, hT]
    simp only [Reference.revertTo, Nat.add_one_ne_zero, if_false, Nat.add_sub_cancel, hget,
      List.take_append, List.take_of_length_le (Nat.le_add_right _ _), Nat.add_sub_cancel_left]

end AuthorityBlock.State

namespace AuthorityBlock.Runtime

open State Hoare Builtin

/-- Two states hold the same world, each with its own snapshots saved below. -/
def SameWorld (s₁ s₂ : State) : Prop :=
  ∃ S₁ S₂ w, Refines s₁ ⟨S₁, w⟩ ∧ Refines s₂ ⟨S₂, w⟩

/-- `s₁` and `s₂` hold the same world and, above the bottoms `P₁` and `P₂` of their stacks, the
same snapshots. -/
def Framed (P₁ P₂ : List (Address → Plain)) (s₁ s₂ : State) : Prop :=
  ∃ T w, Refines s₁ ⟨P₁ ++ T, w⟩ ∧ Refines s₂ ⟨P₂ ++ T, w⟩

/-- The revisions of one checkpoint, saved on top of the bottoms `P₁` and `P₂`. -/
def SameRevision (P₁ P₂ : List (Address → Plain)) (r₁ r₂ : ℕ) : Prop :=
  ∃ j, r₁ = P₁.length + j + 1 ∧ r₂ = P₂.length + j + 1

/-- The EVM reads the state only through its getters: on states that read alike it runs a clause
alike. -/
def EVM.ReadsState (evm : EVM) : Prop :=
  ∀ ctx txCtx clause index gas s s', SameReads s s' →
    evm.exec ctx txCtx clause index gas s' = evm.exec ctx txCtx clause index gas s

section Relations

variable {P₁ P₂ : List (Address → Plain)} {s₁ s₂ : State}

lemma SameWorld.framed (h : SameWorld s₁ s₂) : ∃ P₁ P₂, Framed P₁ P₂ s₁ s₂ := by
  obtain ⟨S₁, S₂, w, h₁, h₂⟩ := h
  exact ⟨S₁, S₂, [], w, by simpa using h₁, by simpa using h₂⟩

lemma Framed.sameWorld (h : Framed P₁ P₂ s₁ s₂) : SameWorld s₁ s₂ := by
  obtain ⟨T, w, h₁, h₂⟩ := h
  exact ⟨_, _, w, h₁, h₂⟩

lemma SameWorld.sameReads (h : SameWorld s₁ s₂) : SameReads s₁ s₂ := by
  obtain ⟨S₁, S₂, w, h₁, h₂⟩ := h
  exact SameReads.of_world_eq h₁ h₂ rfl

lemma SameWorld.newCheckpoint_left (h : SameWorld s₁ s₂) : SameWorld s₁.newCheckpoint.1 s₂ := by
  obtain ⟨S₁, S₂, w, h₁, h₂⟩ := h
  exact ⟨_, S₂, w, h₁.newCheckpoint, h₂⟩

end Relations

/-! ### The runtime's operations, run on both stacks -/

section Operations

variable {P₁ P₂ : List (Address → Plain)}

theorem sim_read {α : Type} {f : State → Option α} (hf : ∀ s s', SameReads s s' → f s' = f s) :
    Sim (Framed P₁ P₂) Eq (read f) (read f) := by
  intro s₁ s₂ hs x₁ t₁ hrun
  rw [run_read] at hrun ⊢
  obtain ⟨a, ha, hx⟩ := Option.map_eq_some_iff.mp hrun
  obtain ⟨rfl, rfl⟩ := Prod.mk.inj hx
  rw [hf s₁ s₂ hs.sameWorld.sameReads, ha]
  exact ⟨_, _, rfl, .ok rfl, hs⟩

/-- Setters that move both stacks' tops alike and keep their bottoms. -/
theorem sim_update {f₁ f₂ : State → Option State}
    (hf : ∀ T w, ∃ T' w', (∀ s, Refines s ⟨P₁ ++ T, w⟩ →
        ∃ s', f₁ s = some s' ∧ Refines s' ⟨P₁ ++ T', w'⟩) ∧
      ∀ s, Refines s ⟨P₂ ++ T, w⟩ → ∃ s', f₂ s = some s' ∧ Refines s' ⟨P₂ ++ T', w'⟩) :
    Sim (Framed P₁ P₂) Eq (update f₁) (update f₂) := by
  intro s₁ s₂ ⟨T, w, h₁, h₂⟩ x₁ t₁ hrun
  rw [run_update] at hrun ⊢
  obtain ⟨u₁, hu₁, hx⟩ := Option.map_eq_some_iff.mp hrun
  obtain ⟨rfl, rfl⟩ := Prod.mk.inj hx
  obtain ⟨T', w', hf₁, hf₂⟩ := hf T w
  obtain ⟨v₁, hv₁, hr₁⟩ := hf₁ s₁ h₁
  obtain ⟨v₂, hv₂, hr₂⟩ := hf₂ s₂ h₂
  obtain rfl : u₁ = v₁ := Option.some.inj (hu₁.symm.trans hv₁)
  rw [hv₂]
  exact ⟨_, _, rfl, .ok rfl, T', w', hr₁, hr₂⟩

theorem sim_write (keccak256 : List UInt8 → List UInt8) (op : Op) (hop : op.IsWrite) :
    Sim (Framed P₁ P₂) Eq (update (op.apply keccak256)) (update (op.apply keccak256)) := by
  refine sim_update fun T w => ?_
  obtain ⟨w', hw'⟩ := Reference.apply_of_isWrite_frame keccak256 hop w
  exact ⟨T, w', fun s hs => hs.apply keccak256 (hw' _), fun s hs => hs.apply keccak256 (hw' _)⟩

theorem sim_newCheckpoint :
    Sim (Framed P₁ P₂) (SameRevision P₁ P₂) newCheckpoint newCheckpoint := by
  intro s₁ s₂ ⟨T, w, h₁, h₂⟩ x₁ t₁ hrun
  rw [run_newCheckpoint] at hrun ⊢
  obtain ⟨rfl, rfl⟩ := Prod.mk.inj (Option.some.inj hrun)
  have hn₁ := h₁.newCheckpoint
  have hn₂ := h₂.newCheckpoint
  simp only [List.append_assoc] at hn₁ hn₂
  refine ⟨_, _, rfl, .ok ⟨T.length, ?_, ?_⟩, T ++ [w], w, hn₁, hn₂⟩
  · rw [h₁.agrees.newCheckpoint, List.length_append]
  · rw [h₂.agrees.newCheckpoint, List.length_append]

theorem sim_revertTo {r₁ r₂ : ℕ} (h : SameRevision P₁ P₂ r₁ r₂) :
    Sim (Framed P₁ P₂) Eq (revertTo r₁) (revertTo r₂) := by
  obtain ⟨j, rfl, rfl⟩ := h
  refine sim_update fun T w => ?_
  obtain ⟨T', w', hT⟩ := Reference.revertTo_frame T w j
  exact ⟨T', w', fun s hs => hs.revertTo (hT P₁), fun s hs => hs.revertTo (hT P₂)⟩

theorem sim_withSnapshot {body : Exec Unit} (hbody : Sim (Framed P₁ P₂) Eq body body)
    (revert : Bool) :
    Sim (Framed P₁ P₂) Eq (withSnapshot body revert) (withSnapshot body revert) :=
  sim_newCheckpoint.bind fun _ _ hr => hbody.bind_eq fun _ =>
    sim_ite (fun _ => sim_revertTo hr) fun _ => sim_pure rfl

theorem Prog.sim (keccak256 : List UInt8 → List UInt8) (p : Prog) :
    Sim (Framed P₁ P₂) Eq (p.exec keccak256) (p.exec keccak256) := by
  induction p with
  | done => exact sim_pure rfl
  | write op rest ih =>
    simp only [Prog.exec]
    exact (sim_write keccak256 op.1 op.2).bind_eq fun _ => ih
  | scope body revert rest ihb ihr =>
    simp only [Prog.exec]
    exact (sim_withSnapshot ihb revert).bind_eq fun _ => ihr

end Operations

end AuthorityBlock.Runtime

/-! ### The builtins -/

namespace AuthorityBlock.Builtin

open AuthorityBlock.Runtime State Hoare

section Frame

variable {P₁ P₂ : List (Address → Plain)}

theorem sim_decodeStorage {α : Type} (addr : Address) (key : Bytes32)
    (dec : List UInt8 → Except String α) :
    Sim (Framed P₁ P₂) Eq (DecodeStorage addr key dec) (DecodeStorage addr key dec) := by
  refine (sim_read fun s s' h => h.getRawStorage addr key).bind_eq fun raw => ?_
  cases dec raw with
  | ok a => exact sim_pure rfl
  | error e => exact sim_throw _

theorem sim_encodeStorage (addr : Address) (key : Bytes32) (enc : Except String (List UInt8)) :
    Sim (Framed P₁ P₂) Eq (EncodeStorage addr key enc) (EncodeStorage addr key enc) := by
  cases enc with
  | error e => exact sim_throw _
  | ok raw => exact sim_write id (.setRawStorage addr key raw) rfl

theorem sim_paramsGet (key : Bytes32) :
    Sim (Framed P₁ P₂) Eq (Params.Get key) (Params.Get key) :=
  sim_decodeStorage _ _ _

theorem sim_getStorage (addr : Address) (key : Bytes32) :
    Sim (Framed P₁ P₂) Eq (GetStorage addr key) (GetStorage addr key) := by
  refine (sim_read fun s s' h => h.getStorage addr key).bind_eq fun v => ?_
  cases v with
  | ok v => exact sim_pure rfl
  | error e => exact sim_throw _

namespace Energy

theorem sim_add (blockTime : UInt64) (addr : Address) (amount : ℤ) :
    Sim (Framed P₁ P₂) Eq (Add blockTime addr amount) (Add blockTime addr amount) := by
  refine sim_ite (fun _ => sim_pure rfl) fun _ => ?_
  refine (sim_read fun s s' h => h.getEnergy addr blockTime).bind_eq fun _ => ?_
  refine (sim_decodeStorage _ _ _).bind_eq fun _ => ?_
  exact (sim_encodeStorage _ _ _).bind_eq fun _ => sim_write id (.setEnergy _ _ _) rfl

theorem sim_sub (blockTime : UInt64) (addr : Address) (amount : ℤ) :
    Sim (Framed P₁ P₂) Eq (Sub blockTime addr amount) (Sub blockTime addr amount) := by
  refine sim_ite (fun _ => sim_pure rfl) fun _ => ?_
  refine (sim_read fun s s' h => h.getEnergy addr blockTime).bind_eq fun _ => ?_
  refine sim_ite (fun _ => sim_pure rfl) fun _ => ?_
  refine (sim_decodeStorage _ _ _).bind_eq fun _ => ?_
  refine (sim_encodeStorage _ _ _).bind_eq fun _ => ?_
  exact (sim_write id (.setEnergy _ _ _) rfl).bind_eq fun _ => sim_pure rfl

end Energy

namespace Binding

variable (b : Binding)

theorem sim_userCredit (user : Address) (blockTime : UInt64) :
    Sim (Framed P₁ P₂) Eq (b.UserCredit user blockTime) (b.UserCredit user blockTime) := by
  refine (sim_decodeStorage _ _ _).bind_eq fun _ => ?_
  refine sim_ite (fun _ => sim_pure rfl) fun _ => ?_
  exact (sim_decodeStorage _ _ _).bind_eq fun _ => sim_pure rfl

theorem sim_setUserCredit (user : Address) (credit : ℤ) (blockTime : UInt64) :
    Sim (Framed P₁ P₂) Eq (b.SetUserCredit user credit blockTime)
      (b.SetUserCredit user credit blockTime) :=
  (sim_decodeStorage _ _ _).bind_eq fun _ => sim_encodeStorage _ _ _

theorem sim_isSponsor (sponsor : Address) :
    Sim (Framed P₁ P₂) Eq (b.IsSponsor sponsor) (b.IsSponsor sponsor) :=
  sim_decodeStorage _ _ _

theorem sim_currentSponsor : Sim (Framed P₁ P₂) Eq b.CurrentSponsor b.CurrentSponsor :=
  (sim_getStorage _ _).bind_eq fun _ => sim_pure rfl

end Binding

end Frame

end AuthorityBlock.Builtin

/-! ### The executor -/

namespace AuthorityBlock.Runtime

open State Hoare Builtin

section Executor

variable {P₁ P₂ : List (Address → Plain)}

namespace ResolvedTransaction

theorem ReturnGas.sim_run (g : ReturnGas) (rgas : UInt64) :
    Sim (Framed P₁ P₂) Eq (g.run rgas) (g.run rgas) := by
  refine (Energy.sim_add _ _ _).bind_eq fun _ => ?_
  rcases g.credit with _ | ⟨binding, user, prepaid, credit⟩
  · exact sim_pure rfl
  · exact binding.sim_setUserCredit _ _ _

theorem sim_buyGasByCredit (r : ResolvedTransaction) (blockTime : UInt64) (gasPrice prepaid : ℤ) :
    Sim (Framed P₁ P₂) Eq (r.buyGasByCredit blockTime gasPrice prepaid)
      (r.buyGasByCredit blockTime gasPrice prepaid) := by
  unfold buyGasByCredit
  rcases r.CommonTo with _ | commonTo
  · exact sim_pure rfl
  · refine (Binding.sim_userCredit _ _ _).bind_eq fun credit => ?_
    refine sim_ite (fun _ => sim_pure rfl) fun _ => ?_
    refine (Binding.sim_currentSponsor _).bind_eq fun sponsor => ?_
    refine (Binding.sim_isSponsor _ _).bind_eq fun isSponsor => ?_
    refine (sim_ite (c := isSponsor = true) (fun _ => Energy.sim_sub _ _ _)
      fun _ => sim_pure rfl).bind_eq fun bySponsor => ?_
    refine sim_ite (fun _ => sim_pure rfl) fun _ => ?_
    exact (Energy.sim_sub _ _ _).bind_eq fun _ => sim_ite (fun _ => sim_pure rfl)
      fun _ => sim_pure rfl

theorem sim_buyGas (r : ResolvedTransaction) (blockTime : UInt64) :
    Sim (Framed P₁ P₂) Eq (r.BuyGas blockTime) (r.BuyGas blockTime) := by
  refine (sim_paramsGet _).bind_eq fun baseGasPrice => ?_
  rcases r.Delegator with _ | delegator
  · refine (r.sim_buyGasByCredit _ _ _).bind_eq fun g => ?_
    rcases g with _ | g
    · exact (Energy.sim_sub _ _ _).bind_eq fun _ => sim_ite (fun _ => sim_pure rfl)
        fun _ => sim_throw _
    · exact sim_pure rfl
  · exact (Energy.sim_sub _ _ _).bind_eq fun _ => sim_ite (fun _ => sim_pure rfl)
      fun _ => sim_throw _

end ResolvedTransaction

variable (rt : Runtime) (hevm : rt.evm.ReadsState)
include hevm

/-- The EVM runs a clause alike on both states, since they read alike. -/
theorem sim_execClause (txCtx : TransactionContext) (clause : Clause) (index : UInt32)
    (gas : UInt64) :
    Sim (Framed P₁ P₂) Eq (rt.execClause txCtx clause index gas)
      (rt.execClause txCtx clause index gas) := by
  refine sim_get.bind fun s₁ s₂ hs => ?_
  have hexec := hevm rt.ctx txCtx clause index gas s₁ s₂ hs.sameWorld.sameReads
  simp only [hexec]
  exact (Prog.sim _ _).bind_eq fun _ => sim_liftExcept _

/-- The clause loop runs alike from the revisions of one checkpoint on both stacks. -/
theorem sim_clauseLoop (txCtx : TransactionContext) {c₁ c₂ : ℕ} (hc : SameRevision P₁ P₂ c₁ c₂) :
    ∀ clauses outputs leftOverGas,
    Sim (Framed P₁ P₂) Eq (rt.clauseLoop txCtx c₁ clauses outputs leftOverGas)
      (rt.clauseLoop txCtx c₂ clauses outputs leftOverGas)
  | [], _, _ => sim_pure rfl
  | clause :: clauses, outputs, leftOverGas => by
    refine (rt.sim_execClause hevm _ _ _ _).bind_eq fun output => ?_
    rcases output.VMErr with _ | err
    · exact sim_clauseLoop txCtx hc clauses _ _
    · exact (sim_revertTo hc).bind_eq fun _ => sim_pure rfl

omit hevm in
theorem sim_finalize (tx : Transaction) (baseGasPrice gasPrice : ℤ)
    (returnGas : ResolvedTransaction.ReturnGas) (outputs : List Output) (reverted : Bool)
    (leftOverGas : UInt64) :
    Sim (Framed P₁ P₂) Eq
      (rt.finalize tx baseGasPrice gasPrice returnGas outputs reverted leftOverGas)
      (rt.finalize tx baseGasPrice gasPrice returnGas outputs reverted leftOverGas) :=
  (returnGas.sim_run _).bind_eq fun _ => (sim_paramsGet _).bind_eq fun _ =>
    (sim_liftExcept _).bind_eq fun _ => (Energy.sim_add _ _ _).bind_eq fun _ => sim_pure rfl

theorem sim_executeTransaction (tx : Transaction) :
    Sim (Framed P₁ P₂) Eq (rt.ExecuteTransaction tx) (rt.ExecuteTransaction tx) := by
  refine (sim_liftExcept _).bind_eq fun resolvedTx => ?_
  refine (resolvedTx.sim_buyGas _).bind_eq fun ⟨baseGasPrice, gasPrice, returnGas⟩ => ?_
  refine (sim_liftExcept _).bind_eq fun txCtx => ?_
  -- the checkpoint gets one revision on each stack, which the clause loop reverts to
  refine sim_newCheckpoint.bind fun c₁ c₂ hc => ?_
  exact (rt.sim_clauseLoop hevm txCtx hc _ _ _).bind_eq fun ⟨outputs, reverted, leftOverGas⟩ =>
    rt.sim_finalize _ _ _ _ _ _ _

end Executor

end AuthorityBlock.Runtime
