import AuthorityBlock.State.Spec

/-! `State` refines the plain world. The levels of the stacked map stand for the stack of
saved worlds: the journals up to each level, read over the committed world, are the world
that level saw (`views`). Every operation keeps this, and then every getter answers from the
top world. -/

namespace AuthorityBlock.State

open WriteLog StackedMap

def views (c : Committed) :
    List (Key × Value) → List (List (Key × Value)) → List (Address → Plain)
  | _, [] => []
  | pre, j :: js => worldOf c (pre ++ j) :: views c (pre ++ j) js

lemma views_concat (c : Committed) (pre : List (Key × Value)) (js : List (List (Key × Value)))
    (j : List (Key × Value)) :
    views c pre (js ++ [j]) = views c pre js ++ [worldOf c (pre ++ js.flatten ++ j)] := by
  induction js generalizing pre with
  | nil => simp [views]
  | cons j' js ih => simp [views, ih, List.append_assoc]

lemma views_take (c : Committed) (pre : List (Key × Value)) (js : List (List (Key × Value)))
    (d : ℕ) : views c pre (js.take d) = (views c pre js).take d := by
  induction js generalizing pre d with
  | nil => simp [views]
  | cons j js ih =>
    cases d with
    | zero => simp [views]
    | succ d => simp [views, ih]

@[simp] lemma length_views (c : Committed) (pre : List (Key × Value))
    (js : List (List (Key × Value))) : (views c pre js).length = js.length := by
  induction js generalizing pre with
  | nil => rfl
  | cons j js ih => simp [views, ih]

structure Refines (s : State) (r : Reference) : Prop where
  wf : s.Wf
  views_eq : views s.committed [] s.journals = r.worlds

/-- Every getter of the state answers from the plain world, and `NewCheckpoint` returns the
number of the snapshot it saves. -/
structure Agrees (s : State) (r : Reference) : Prop where
  getBalance : ∀ addr, s.getBalance addr = some (r.world addr).account.balance
  getEnergy : ∀ addr blockTime,
    s.getEnergy addr blockTime = some ((r.world addr).account.calcEnergy blockTime)
  getMaster : ∀ addr, s.getMaster addr = some (BytesToAddress (r.world addr).account.master)
  getCode : ∀ addr, s.getCode addr = some (r.world addr).code
  getCodeHash : ∀ addr,
    s.getCodeHash addr = some (BytesToBytes32 (r.world addr).account.codeHash)
  getStorage : ∀ addr key,
    s.getStorage addr key = some (decodeStorage ((r.world addr).storage key))
  Exists : ∀ addr, s.Exists addr = some !(r.world addr).account.IsEmpty
  newCheckpoint : s.newCheckpoint.2 = r.snapshots.length + 1

variable {s : State} {r : Reference}

lemma Refines.split (h : Refines s r) :
    ∃ js j, s.journals = js ++ [j] ∧ views s.committed [] js = r.snapshots ∧
      worldOf s.committed s.sm.entries = r.world := by
  obtain ⟨js, j, hj⟩ : ∃ js j, s.journals = js ++ [j] :=
    exists_concat_of_ne_nil (by simpa [journals] using h.wf.ne_nil)
  have hv := h.views_eq
  rw [hj, views_concat, Reference.worlds] at hv
  obtain ⟨hsnap, hworld⟩ := List.append_inj' hv rfl
  refine ⟨js, j, hj, hsnap, ?_⟩
  rw [entries_eq_flatten, hj]
  simpa using List.singleton_inj.mp hworld

lemma Refines.world_eq (h : Refines s r) : worldOf s.committed s.sm.entries = r.world := by
  obtain ⟨-, -, -, -, hw⟩ := h.split
  exact hw

lemma Refines.agrees (h : Refines s r) : Agrees s r := by
  have hw := h.world_eq
  have hwf := h.wf
  refine ⟨fun addr => ?_, fun addr t => ?_, fun addr => ?_, fun addr => ?_, fun addr => ?_,
    fun addr key => ?_, fun addr => ?_, ?_⟩
  all_goals try simp only [getBalance, getEnergy, getMaster, getCodeHash, State.Exists,
    hwf.getAccount_eq]
  · rw [← hw]; rfl
  · rw [← hw]; rfl
  · rw [← hw]; rfl
  · rw [hwf.getCode_eq, ← hw]; rfl
  · rw [← hw]; rfl
  · rw [getStorage, hwf.getRawStorage_eq, ← hw]; rfl
  · rw [← hw]; rfl
  · obtain ⟨js, j, hj, hsnap, -⟩ := h.split
    rw [(hwf.newCheckpoint).2.2.2, hj, ← hsnap]
    simp

lemma Refines.of_writes {s' : State} {es : List (Key × Value)} (h : Refines s r) (hwf : s'.Wf)
    (hw : Writes s s' es) : Refines s' ⟨r.snapshots, worldOf s.committed (s.sm.entries ++ es)⟩ := by
  obtain ⟨js, j, hj, hsnap, -⟩ := h.split
  obtain ⟨hc, js₁, j₁, hj₁, hj₂⟩ := hw
  obtain ⟨rfl, hjj⟩ := List.append_inj' (hj.symm.trans hj₁) rfl
  cases List.singleton_inj.mp hjj
  refine ⟨hwf, ?_⟩
  rw [hj₂, views_concat, hc, hsnap, Reference.worlds, entries_eq_flatten, hj]
  simp

lemma Refines.updateAccount (h : Refines s r) (addr : Address) (f : Account → Account) :
    ∃ s', (s.getAccount addr).bind (fun cpy => s.updateAccount addr (f cpy)) = some s' ∧
      Refines s' (r.modify addr fun p => Reference.setAccount p f) := by
  obtain ⟨s', hs, hwf, hw⟩ := h.wf.updateAccount addr f
  refine ⟨s', hs, ?_⟩
  have h' := h.of_writes hwf hw
  rwa [worldOf_concat_account, accountOf_eq_worldOf, h.world_eq] at h'

lemma Refines.setRawStorage (h : Refines s r) (addr : Address) (key : Bytes32)
    (raw : List UInt8) :
    ∃ s', s.setRawStorage addr key raw = some s' ∧
      Refines s' (r.modify addr fun p => { p with storage := Function.update p.storage key raw }) := by
  obtain ⟨s', hs, hwf, hw⟩ := h.wf.setRawStorage addr key raw
  refine ⟨s', hs, ?_⟩
  have h' := h.of_writes hwf hw
  rwa [worldOf_concat_storage, h.world_eq] at h'

lemma Refines.setCode (h : Refines s r) (keccak256 : List UInt8 → List UInt8) (addr : Address)
    (code : List UInt8) :
    ∃ s', s.setCode keccak256 addr code = some s' ∧
      Refines s' (r.modify addr fun p => { Reference.setAccount p (fun a =>
        { a with codeHash := if code.length > 0 then keccak256 code else [] }) with code }) := by
  obtain ⟨s', hs, hwf, hw⟩ := h.wf.setCode keccak256 addr code
  refine ⟨s', hs, ?_⟩
  have h' := h.of_writes hwf hw
  rw [show s.sm.entries ++ [(.code addr, .code code), (.account addr, .account
      { accountOf s.committed s.sm.entries addr with
        codeHash := if code.length > 0 then keccak256 code else [] })] =
      s.sm.entries ++ [(.code addr, .code code)] ++ [(.account addr, .account
      { accountOf s.committed s.sm.entries addr with
        codeHash := if code.length > 0 then keccak256 code else [] })] by simp,
    worldOf_concat_account, worldOf_concat_code, accountOf_eq_worldOf, h.world_eq,
    Function.update_idem, Function.update_self] at h'
  exact h'

lemma Refines.delete (h : Refines s r) (addr : Address) :
    ∃ s', s.delete addr = some s' ∧ Refines s' (r.modify addr fun _ => Plain.empty) := by
  obtain ⟨s', hs, hwf, hw⟩ := h.wf.delete addr
  refine ⟨s', hs, ?_⟩
  have h' := h.of_writes hwf hw
  have hb : barrierOf s.sm.entries addr =
      barrierOf (s.sm.entries ++ [(.code addr, .code [])] ++
        [(.account addr, .account emptyAccount)]) addr := by
    rw [barrierOf_concat, barrierOf_concat]
    simp
  have hv : Valid (s.sm.entries ++ [(.code addr, .code [])] ++
      [(.account addr, .account emptyAccount)]) :=
    valid_concat_iff.mpr ⟨valid_concat_iff.mpr ⟨h.wf.valid, trivial⟩, trivial⟩
  rw [show s.sm.entries ++ [(.code addr, .code []), (.account addr, .account emptyAccount),
      (.storageBarrier addr, .barrier (barrierOf s.sm.entries addr + 1))] =
      s.sm.entries ++ [(.code addr, .code [])] ++ [(.account addr, .account emptyAccount)] ++
        [(.storageBarrier addr, .barrier (barrierOf s.sm.entries addr + 1))] by simp,
    hb, worldOf_concat_barrier _ _ hv, worldOf_concat_account, worldOf_concat_code,
    h.world_eq, Function.update_idem, Function.update_idem, Function.update_self,
    Function.update_self] at h'
  exact h'

lemma Refines.newCheckpoint (h : Refines s r) :
    Refines s.newCheckpoint.1 ⟨r.snapshots ++ [r.world], r.world⟩ := by
  obtain ⟨hwf, hc, hj, -⟩ := h.wf.newCheckpoint
  obtain ⟨js, j, hjs, hsnap, hworld⟩ := h.split
  refine ⟨hwf, ?_⟩
  rw [hj, hc, hjs, views_concat, views_concat, hsnap, Reference.worlds, ← hworld,
    entries_eq_flatten, hjs]
  simp

lemma Refines.revertTo {r' : Reference} {revision : ℕ} (h : Refines s r)
    (hr : r.revertTo revision = some r') : ∃ s', s.revertTo revision = some s' ∧ Refines s' r' := by
  obtain ⟨hpos, hworlds⟩ := Reference.worlds_revertTo hr
  obtain ⟨s', hs, hwf, hc, hj⟩ := h.wf.revertTo hpos
  exact ⟨s', hs, hwf, by rw [hj, hc, views_take, h.views_eq, hworlds]⟩

lemma Refines.apply (keccak256 : List UInt8 → List UInt8) {op : Op} {r' : Reference}
    (h : Refines s r) (hr : Reference.apply keccak256 op r = some r') :
    ∃ s', op.apply keccak256 s = some s' ∧ Refines s' r' := by
  cases op with
  | setBalance addr balance =>
    cases hr
    exact h.updateAccount addr fun a => { a with balance }
  | setEnergy addr energy blockTime =>
    cases hr
    exact h.updateAccount addr fun a => { a with energy, blockTime }
  | setMaster addr master =>
    cases hr
    exact h.updateAccount addr fun a =>
      { a with master := if master.IsZero then [] else master.bytes }
  | setCode addr code =>
    cases hr
    exact h.setCode keccak256 addr code
  | setStorage addr key value =>
    cases hr
    exact h.setRawStorage addr key (encodeStorage value)
  | setRawStorage addr key raw =>
    cases hr
    exact h.setRawStorage addr key raw
  | delete addr =>
    cases hr
    exact h.delete addr
  | newCheckpoint =>
    cases hr
    exact ⟨_, rfl, h.newCheckpoint⟩
  | revertTo revision => exact h.revertTo hr

lemma Refines.setBalance (h : Refines s r) (addr : Address) (balance : ℤ) :
    ∃ s', s.setBalance addr balance = some s' ∧
      Refines s' (r.modify addr fun p => Reference.setAccount p fun a => { a with balance }) :=
  h.updateAccount addr fun a => { a with balance }

lemma Refines.setEnergy (h : Refines s r) (addr : Address) (energy : ℤ) (blockTime : UInt64) :
    ∃ s', s.setEnergy addr energy blockTime = some s' ∧
      Refines s' (r.modify addr fun p => Reference.setAccount p fun a => { a with energy, blockTime }) :=
  h.updateAccount addr fun a => { a with energy, blockTime }

lemma Wf.refines (h : s.Wf) : ∃ r, Refines s r := by
  obtain ⟨js, j, hj⟩ : ∃ js j, s.journals = js ++ [j] :=
    exists_concat_of_ne_nil (by simpa [journals] using h.ne_nil)
  exact ⟨⟨views s.committed [] js, worldOf s.committed (js.flatten ++ j)⟩, h,
    by rw [hj, views_concat, Reference.worlds, List.nil_append]⟩

lemma Refines.run (keccak256 : List UInt8 → List UInt8) {ops : List Op} {r' : Reference}
    (h : Refines s r) (hr : Reference.run keccak256 r ops = some r') :
    ∃ s', State.run keccak256 s ops = some s' ∧ Refines s' r' := by
  induction ops generalizing s r with
  | nil =>
    cases hr
    exact ⟨s, rfl, h⟩
  | cons op ops ih =>
    obtain ⟨r₁, hr₁, hrun⟩ := Option.bind_eq_some_iff.mp hr
    obtain ⟨s₁, hs₁, h₁⟩ := h.apply keccak256 hr₁
    obtain ⟨s', hs', h'⟩ := ih h₁ hrun
    exact ⟨s', by rw [State.run, hs₁, Option.bind_some, hs'], h'⟩

lemma refines_new (c : Committed) : Refines (new c) (Reference.init c) :=
  ⟨wf_new c, by simp [views, journals, new, StackedMap.new, newLevel, Reference.worlds,
    Reference.init, worldOf_nil]⟩

theorem state_refines_plain_world (keccak256 : List UInt8 → List UInt8) (c : Committed)
    (ops : List Op) (r : Reference) (hr : Reference.run keccak256 (Reference.init c) ops = some r) :
    ∃ s, State.run keccak256 (new c) ops = some s ∧ Agrees s r := by
  obtain ⟨s, hs, h⟩ := (refines_new c).run keccak256 hr
  exact ⟨s, hs, h.agrees⟩

theorem state_refines_plain_world_delete_revert :
    ∃ r, Reference.run id (Reference.init ⟨fun _ => emptyAccount, fun _ => [], fun _ _ => []⟩)
        [.setStorage Address.zero Bytes32.zero ⟨List.replicate 31 0 ++ [7], rfl⟩, .newCheckpoint,
          .delete Address.zero, .revertTo 1] = some r ∧
      ∃ s, State.run id (new ⟨fun _ => emptyAccount, fun _ => [], fun _ _ => []⟩)
        [.setStorage Address.zero Bytes32.zero ⟨List.replicate 31 0 ++ [7], rfl⟩, .newCheckpoint,
          .delete Address.zero, .revertTo 1] = some s ∧ Agrees s r :=
  ⟨_, rfl, state_refines_plain_world id _ _ _ rfl⟩

end AuthorityBlock.State
