import AuthorityBlock.State.Refinement

/-! The callbacks through which the EVM moves VET (`runtime/runtime.go`), and the balance
updates of `runtime/statedb/statedb.go` they go through. Energy is computed lazily from the
time an account was last settled and its balance then, so a callback has to settle an account
before it changes the balance. The event and transfer logs the callbacks add are not
modelled. -/

namespace AuthorityBlock.StateDB

def subBalance (s : State) (addr : Address) (amount : ℤ) : Option State :=
  if amount = 0 then some s
  else do
    let balance ← s.getBalance addr
    s.setBalance addr (balance - amount)

def addBalance (s : State) (addr : Address) (amount : ℤ) : Option State :=
  if amount = 0 then some s
  else do
    let balance ← s.getBalance addr
    s.setBalance addr (balance + amount)

open State

variable {s : State} {r : Reference}

lemma subBalance_refines (h : Refines s r) (addr : Address) {amount : ℤ} (hamt : amount ≠ 0) :
    ∃ s', subBalance s addr amount = some s' ∧
      Refines s' (r.modify addr fun p => Reference.setAccount p fun a =>
        { a with balance := a.balance - amount }) := by
  obtain ⟨s', hs', h'⟩ := h.setBalance addr ((r.world addr).account.balance - amount)
  refine ⟨s', ?_, h'⟩
  rw [subBalance, if_neg hamt, h.agrees.getBalance, Option.bind_eq_bind, Option.bind_some]
  exact hs'

lemma addBalance_refines (h : Refines s r) (addr : Address) {amount : ℤ} (hamt : amount ≠ 0) :
    ∃ s', addBalance s addr amount = some s' ∧
      Refines s' (r.modify addr fun p => Reference.setAccount p fun a =>
        { a with balance := a.balance + amount }) := by
  obtain ⟨s', hs', h'⟩ := h.setBalance addr ((r.world addr).account.balance + amount)
  refine ⟨s', ?_, h'⟩
  rw [addBalance, if_neg hamt, h.agrees.getBalance, Option.bind_eq_bind, Option.bind_some]
  exact hs'

end AuthorityBlock.StateDB

namespace AuthorityBlock.Runtime

open State

/-- The `Transfer` callback of `newEVM` in a block at `blockTime`. -/
def transfer (blockTime : UInt64) (s : State) (sender recipient : Address) (amount : ℤ) :
    Option State :=
  if amount = 0 then some s
  else do
    -- both parties are settled before the balances move
    let senderEnergy ← s.getEnergy sender blockTime
    let recipientEnergy ← s.getEnergy recipient blockTime
    let s ← s.setEnergy sender senderEnergy blockTime
    let s ← s.setEnergy recipient recipientEnergy blockTime
    let s ← StateDB.subBalance s sender amount
    StateDB.addBalance s recipient amount

/-- `OnSuicideContract`: the dying contract's energy, then its balance, go to the receiver. -/
def onSuicideContract (blockTime : UInt64) (s : State) (contractAddr tokenReceiver : Address) :
    Option State := do
  let amount ← s.getEnergy contractAddr blockTime
  let s ← if amount ≠ 0 then do
      let receiverEnergy ← s.getEnergy tokenReceiver blockTime
      s.setEnergy tokenReceiver (receiverEnergy + amount) blockTime
    else pure s
  let balance ← s.getBalance contractAddr
  if balance ≠ 0 then StateDB.addBalance s tokenReceiver balance else pure s

variable {s : State} {r : Reference}

lemma transfer_refines (h : Refines s r) (blockTime : UInt64) (sender recipient : Address)
    {amount : ℤ} (hamt : amount ≠ 0) :
    ∃ s' r', transfer blockTime s sender recipient amount = some s' ∧ Refines s' r' ∧
      ∀ addr ∈ [sender, recipient], (r'.world addr).account.blockTime = blockTime ∧
        (r'.world addr).account.energy = (r.world addr).account.calcEnergy blockTime := by
  obtain ⟨s₁, hs₁, h₁⟩ :=
    h.setEnergy sender ((r.world sender).account.calcEnergy blockTime) blockTime
  obtain ⟨s₂, hs₂, h₂⟩ :=
    h₁.setEnergy recipient ((r.world recipient).account.calcEnergy blockTime) blockTime
  obtain ⟨s₃, hs₃, h₃⟩ := StateDB.subBalance_refines h₂ sender hamt
  obtain ⟨s₄, hs₄, h₄⟩ := StateDB.addBalance_refines h₃ recipient hamt
  refine ⟨s₄, _, ?_, h₄, ?_⟩
  · simp only [transfer, if_neg hamt, h.agrees.getEnergy, Option.bind_eq_bind, Option.bind_some,
      hs₁, hs₂, hs₃]
    exact hs₄
  · -- the last write to either party is a balance move on top of its settled account
    intro addr haddr
    simp only [List.mem_cons, List.not_mem_nil, or_false] at haddr
    by_cases hsr : sender = recipient
    · subst hsr
      rcases haddr with rfl | rfl <;>
        simp [Reference.modify, Reference.setAccount]
    · rcases haddr with rfl | rfl
      · simp [Reference.modify, Reference.setAccount, Function.update_apply, hsr]
      · simp [Reference.modify, Reference.setAccount, Function.update_apply, Ne.symm hsr]

/-- After a transfer of VET, both parties are settled at the block time: each one's energy at
any later time is its energy at the block time plus what its new balance grew since. -/
theorem transfer_settles_both (h : s.Wf) {blockTime : UInt64} (h0 : blockTime ≠ 0)
    (sender recipient : Address) {amount : ℤ} (hamt : amount ≠ 0) :
    ∃ s', transfer blockTime s sender recipient amount = some s' ∧ s'.Wf ∧
      ∀ addr ∈ [sender, recipient], ∃ energy balance, s.getEnergy addr blockTime = some energy ∧
        s'.getBalance addr = some balance ∧ ∀ t, blockTime < t →
          s'.getEnergy addr t = some (energy + Account.growth balance blockTime t) := by
  obtain ⟨r, hr⟩ := h.refines
  obtain ⟨s', r', hs', hr', hsettled⟩ := transfer_refines hr blockTime sender recipient hamt
  refine ⟨s', hs', hr'.wf, fun addr haddr => ?_⟩
  obtain ⟨hbt, hen⟩ := hsettled addr haddr
  refine ⟨_, _, hr.agrees.getEnergy addr blockTime, hr'.agrees.getBalance addr, fun t ht => ?_⟩
  rw [hr'.agrees.getEnergy, Account.calcEnergy_of_lt _ (by rw [hbt]; exact h0)
    (by rw [hbt]; exact ht), hbt, hen]

lemma onSuicideContract_refines_of_energy (h : Refines s r) (blockTime : UInt64)
    {contractAddr tokenReceiver : Address} (hne : contractAddr ≠ tokenReceiver)
    (he : (r.world contractAddr).account.calcEnergy blockTime ≠ 0) :
    ∃ s' r', onSuicideContract blockTime s contractAddr tokenReceiver = some s' ∧ Refines s' r' ∧
      (r'.world tokenReceiver).account.blockTime = blockTime ∧
      (r'.world tokenReceiver).account.energy =
        (r.world tokenReceiver).account.calcEnergy blockTime +
          (r.world contractAddr).account.calcEnergy blockTime := by
  obtain ⟨s₁, hs₁, h₁⟩ := h.setEnergy tokenReceiver
    ((r.world tokenReceiver).account.calcEnergy blockTime +
      (r.world contractAddr).account.calcEnergy blockTime) blockTime
  have hb₁ : s₁.getBalance contractAddr = some (r.world contractAddr).account.balance := by
    rw [h₁.agrees.getBalance]
    simp [Reference.modify, Reference.setAccount, hne]
  have hrun : onSuicideContract blockTime s contractAddr tokenReceiver =
      if (r.world contractAddr).account.balance ≠ 0 then
        StateDB.addBalance s₁ tokenReceiver (r.world contractAddr).account.balance
      else some s₁ := by
    simp only [onSuicideContract, h.agrees.getEnergy, Option.bind_eq_bind, Option.bind_some,
      if_pos he, hs₁, hb₁]
    rfl
  by_cases hb : (r.world contractAddr).account.balance = 0
  · refine ⟨s₁, _, by rw [hrun, if_neg (not_not.mpr hb)], h₁, ?_, ?_⟩ <;>
      simp [Reference.modify, Reference.setAccount]
  · obtain ⟨s₂, hs₂, h₂⟩ := StateDB.addBalance_refines h₁ tokenReceiver hb
    refine ⟨s₂, _, by rw [hrun, if_pos hb, hs₂], h₂, ?_, ?_⟩ <;>
      simp [Reference.modify, Reference.setAccount]

lemma onSuicideContract_refines_of_zero_energy (h : Refines s r) (blockTime : UInt64)
    (contractAddr tokenReceiver : Address)
    (he : (r.world contractAddr).account.calcEnergy blockTime = 0)
    (hb : (r.world contractAddr).account.balance ≠ 0) :
    ∃ s' r', onSuicideContract blockTime s contractAddr tokenReceiver = some s' ∧ Refines s' r' ∧
      (r'.world tokenReceiver).account = { (r.world tokenReceiver).account with
        balance := (r.world tokenReceiver).account.balance +
          (r.world contractAddr).account.balance } := by
  obtain ⟨s', hs', h'⟩ := StateDB.addBalance_refines h tokenReceiver hb
  refine ⟨s', _, ?_, h', by simp [Reference.modify, Reference.setAccount]⟩
  simp only [onSuicideContract, h.agrees.getEnergy, he, Option.bind_eq_bind, Option.bind_some,
    Option.pure_def, ne_eq, not_true_eq_false, if_false, h.agrees.getBalance, hb,
    not_false_eq_true, if_true]
  exact hs'

/-- The defect of `OnSuicideContract`: when the dying contract's energy is zero, the receiver's
energy at any time is computed from its old settle time with the new balance, so the balance
it just received grows energy over the time before it arrived. -/
theorem onSuicideContract_zero_energy_unsettled (h : s.Wf) {blockTime : UInt64}
    {contractAddr tokenReceiver : Address} (he : s.getEnergy contractAddr blockTime = some 0)
    {balance : ℤ} (hb : s.getBalance contractAddr = some balance) (hb0 : balance ≠ 0) :
    ∃ s', onSuicideContract blockTime s contractAddr tokenReceiver = some s' ∧
      ∀ t, s'.getEnergy tokenReceiver t = (s.getAccount tokenReceiver).map fun a =>
        ({ a with balance := a.balance + balance } : Account).calcEnergy t := by
  obtain ⟨r, hr⟩ := h.refines
  rw [hr.agrees.getEnergy, Option.some_inj] at he
  rw [hr.agrees.getBalance, Option.some_inj] at hb
  subst hb
  obtain ⟨s', r', hs', hr', hacc⟩ :=
    onSuicideContract_refines_of_zero_energy hr blockTime contractAddr tokenReceiver he hb0
  refine ⟨s', hs', fun t => ?_⟩
  rw [hr'.agrees.getEnergy, hacc, h.getAccount_eq, accountOf_eq_worldOf, hr.world_eq]
  rfl

theorem onSuicideContract_zero_energy_mints :
    ∃ s', onSuicideContract 10
        (new ⟨fun addr => if addr = Address.zero then ⟨10 ^ 18, 0, 5, [], [], []⟩
          else ⟨10 ^ 18, 0, 10, [], [], []⟩, fun _ => [], fun _ _ => []⟩)
        ⟨List.replicate 19 0 ++ [1], rfl⟩ Address.zero = some s' ∧
      s'.getBalance Address.zero = some (2 * 10 ^ 18) ∧
      (s'.getAccount Address.zero).map Account.blockTime = some 5 ∧
      s'.getEnergy Address.zero 20 = some 150000000000 ∧
      Account.growth (10 ^ 18) 5 10 + Account.growth (2 * 10 ^ 18) 10 20 = 125000000000 := by
  refine ⟨_, rfl, ?_, ?_, ?_, ?_⟩ <;> decide +kernel

end AuthorityBlock.Runtime
