import AuthorityBlock.State.Refinement
import AuthorityBlock.Lib.Hoare

/-! The runtime's computations on the state: Go code that returns an error beside the writes it
has made, and panics where the state model does. A caller that made a checkpoint before such a
computation can revert to it, and gets its state back, when the computation kept every snapshot
saved below the world it started from (`Above`): it only writes, and reverts only to checkpoints
of its own. The EVM's effect on the state is given as a `Prog` of writes and snapshot scopes, so
that it is of this kind by construction. -/

namespace AuthorityBlock.State

/-- A setter of the state, not `NewCheckpoint` or `RevertTo`. -/
def Op.IsWrite : Op → Bool
  | .newCheckpoint | .revertTo _ => false
  | _ => true

lemma Reference.apply_of_isWrite (keccak256 : List UInt8 → List UInt8) {op : Op}
    (h : op.IsWrite) (r : Reference) :
    ∃ w, Reference.apply keccak256 op r = some ⟨r.snapshots, w⟩ := by
  cases op <;> first | exact ⟨_, rfl⟩ | cases h

lemma Reference.revertTo_of_prefix {r : Reference} {S : List (Address → Plain)}
    {w : Address → Plain} (hS : S ++ [w] <+: r.snapshots) :
    r.revertTo (S.length + 1) = some ⟨S, w⟩ := by
  obtain ⟨T, hT⟩ := hS
  have hget : r.snapshots[S.length]? = some w := by simp [← hT]
  have htake : r.snapshots.take S.length = S := by simp [← hT]
  simp only [Reference.revertTo, Nat.add_one_ne_zero, if_false, Nat.add_sub_cancel, hget, htake]

variable {s : State} {r : Reference}

lemma Refines.revertTo_of_prefix {S : List (Address → Plain)} {w : Address → Plain}
    (h : Refines s r) (hS : S ++ [w] <+: r.snapshots) :
    ∃ s', s.revertTo (S.length + 1) = some s' ∧ Refines s' ⟨S, w⟩ :=
  h.revertTo (Reference.revertTo_of_prefix hS)

lemma Refines.getRawStorage (h : Refines s r) (addr : Address) (key : Bytes32) :
    s.getRawStorage addr key = some ((r.world addr).storage key) := by
  rw [h.wf.getRawStorage_eq, ← h.world_eq]
  rfl

end AuthorityBlock.State

namespace AuthorityBlock.Runtime

open State Hoare

abbrev Exec := ExceptT String (StateT State Option)

def Write : Type := {op : Op // op.IsWrite}

/-- A getter of the state; its panic is the computation's. -/
def read {α : Type} (f : State → Option α) : Exec α := do
  let s ← get
  liftM (f s)

/-- A setter of the state; its panic is the computation's. -/
def update (f : State → Option State) : Exec Unit := do
  let s ← get
  set (← liftM (f s))

def write (keccak256 : List UInt8 → List UInt8) (op : Write) : Exec Unit :=
  update (op.1.apply keccak256)

def newCheckpoint : Exec ℕ := do
  let (s, revision) := (← get).newCheckpoint
  set s
  pure revision

def revertTo (revision : ℕ) : Exec Unit := update (·.revertTo revision)

/-- `NewCheckpoint`, the body, and a revert to the checkpoint when `revert` is set: a call of the
EVM, whose snapshot is reverted when the call fails. -/
def withSnapshot (body : Exec Unit) (revert : Bool) : Exec Unit := do
  let revision ← newCheckpoint
  body
  if revert then revertTo revision else pure ()

/-- What a run of the EVM does to the state: writes, and snapshot scopes that it reverts or
keeps. -/
inductive Prog
  | done
  | write (op : Write) (rest : Prog)
  | scope (body : Prog) (revert : Bool) (rest : Prog)

def Prog.exec (keccak256 : List UInt8 → List UInt8) : Prog → Exec Unit
  | .done => pure ()
  | .write op rest => Runtime.write keccak256 op >>= fun _ => rest.exec keccak256
  | .scope body revert rest => withSnapshot (body.exec keccak256) revert >>= fun _ => rest.exec keccak256

/-! ### Runs of the primitives -/

section Runs

variable (s : State)

lemma run_read {α : Type} (f : State → Option α) :
    (read f).run.run s = (f s).map fun a => (.ok a, s) := by
  change (liftM (f s) : Exec α).run.run s = _
  cases f s <;> rfl

lemma run_update (f : State → Option State) :
    (update f).run.run s = (f s).map fun s' => (.ok (), s') := by
  change (liftM (f s) >>= set : Exec Unit).run.run s = _
  cases f s <;> rfl

lemma run_newCheckpoint :
    newCheckpoint.run.run s = some (.ok s.newCheckpoint.2, s.newCheckpoint.1) := rfl


end Runs

/-! ### What is saved below the world -/

/-- The snapshots saved below the state's world begin with `S`. -/
def Above (S : List (Address → Plain)) (s : State) : Prop :=
  ∃ r, Refines s r ∧ S <+: r.snapshots

lemma Above.mono {S S' : List (Address → Plain)} {s : State} (h : Above S s) (hS : S' <+: S) :
    Above S' s := by
  obtain ⟨r, hr, hpre⟩ := h
  exact ⟨r, hr, hS.trans hpre⟩

lemma Above.wf {S : List (Address → Plain)} {s : State} (h : Above S s) : s.Wf := by
  obtain ⟨r, hr, -⟩ := h
  exact hr.wf

variable {S : List (Address → Plain)}

theorem keeps_read {α : Type} (f : State → Option α) : Keeps (Above S) (read f) := by
  intro s hs x s' hrun
  rw [run_read] at hrun
  obtain ⟨a, -, ha⟩ := Option.map_eq_some_iff.mp hrun
  obtain ⟨-, rfl⟩ := Prod.mk.inj ha
  exact hs

/-- A setter that moves the world and keeps the saved snapshots keeps what is saved below. -/
theorem keeps_update {f : State → Option State}
    (hf : ∀ s r, Refines s r → ∀ s', f s = some s' → ∃ w, Refines s' ⟨r.snapshots, w⟩) :
    Keeps (Above S) (update f) := by
  intro s ⟨r, hr, hS⟩ x s' hrun
  rw [run_update] at hrun
  obtain ⟨s₁, hs₁, h₁⟩ := Option.map_eq_some_iff.mp hrun
  obtain ⟨-, rfl⟩ := Prod.mk.inj h₁
  obtain ⟨w, hw⟩ := hf s r hr s₁ hs₁
  exact ⟨_, hw, hS⟩

theorem keeps_write (keccak256 : List UInt8 → List UInt8) (op : Write) :
    Keeps (Above S) (write keccak256 op) := by
  refine keeps_update fun s r hr s' hs' => ?_
  obtain ⟨w, hw⟩ := Reference.apply_of_isWrite keccak256 op.2 r
  obtain ⟨s₂, hs₂, h₂⟩ := hr.apply keccak256 hw
  obtain rfl : s' = s₂ := Option.some.inj (hs'.symm.trans hs₂)
  exact ⟨w, h₂⟩

/-- `NewCheckpoint` saves the world on top of the snapshots and returns their new number. -/
theorem newCheckpoint_spec :
    Triple (Above S) newCheckpoint fun x s => ∃ S₁ w, S <+: S₁ ∧ x = .ok (S₁.length + 1) ∧
      Above (S₁ ++ [w]) s := by
  intro s ⟨r, hr, hS⟩ x s' hrun
  rw [run_newCheckpoint] at hrun
  obtain ⟨rfl, rfl⟩ := Prod.mk.inj (Option.some.inj hrun)
  exact ⟨r.snapshots, r.world, hS, by rw [hr.agrees.newCheckpoint],
    _, hr.newCheckpoint, List.prefix_refl _⟩

theorem revertTo_spec {w : Address → Plain} :
    Triple (Above (S ++ [w])) (revertTo (S.length + 1)) fun _ => Above S := by
  intro s ⟨r, hr, hS⟩ x s' hrun
  rw [revertTo, run_update] at hrun
  obtain ⟨s₁, hs₁, h₁⟩ := Option.map_eq_some_iff.mp hrun
  obtain ⟨-, rfl⟩ := Prod.mk.inj h₁
  obtain ⟨s₂, hs₂, h₂⟩ := hr.revertTo_of_prefix hS
  obtain rfl : s₁ = s₂ := Option.some.inj (hs₁.symm.trans hs₂)
  exact ⟨_, h₂, List.prefix_refl _⟩

/-- A scope whose body keeps what is saved below it keeps it too, reverted or not. -/
theorem keeps_withSnapshot {body : Exec Unit} (hbody : ∀ S, Keeps (Above S) body) (revert : Bool) :
    Keeps (Above S) (withSnapshot body revert) := by
  refine Triple.bind newCheckpoint_spec (fun revision => ?_) fun e s ⟨_, _, _, he, _⟩ => ?_
  · intro s ⟨S₁, w, hS, hrev, hs⟩
    obtain rfl : revision = S₁.length + 1 := Except.ok.inj hrev
    have hS₁ : S <+: S₁ ++ [w] := hS.trans (List.prefix_append S₁ [w])
    -- the body keeps the checkpoint's snapshot, which the revert then takes back
    refine Triple.bind (hbody (S₁ ++ [w])) (fun _ => ?_) (fun _ _ h => h.mono hS₁) s hs
    cases revert
    · exact triple_pure () fun _ h => h.mono hS₁
    · exact revertTo_spec.mono (fun _ h => h) fun _ _ h => h.mono hS
  · cases he

theorem Prog.keeps (keccak256 : List UInt8 → List UInt8) (p : Prog) :
    ∀ S, Keeps (Above S) (p.exec keccak256) := by
  induction p with
  | done => exact fun _ => keeps_pure ()
  | write op rest ih =>
    simp only [Prog.exec]
    exact fun S => (keeps_write keccak256 op).bind fun _ => ih S
  | scope body revert rest ihb ihr =>
    simp only [Prog.exec]
    exact fun S => (keeps_withSnapshot ihb revert).bind fun _ => ihr S

/-! ### Reading alike -/

/-- Every getter of the state reads `s'` as it reads `s`. -/
structure SameReads (s s' : State) : Prop where
  getBalance : ∀ addr, s'.getBalance addr = s.getBalance addr
  getEnergy : ∀ addr blockTime, s'.getEnergy addr blockTime = s.getEnergy addr blockTime
  getMaster : ∀ addr, s'.getMaster addr = s.getMaster addr
  getRawStorage : ∀ addr key, s'.getRawStorage addr key = s.getRawStorage addr key
  getStorage : ∀ addr key, s'.getStorage addr key = s.getStorage addr key
  getCode : ∀ addr, s'.getCode addr = s.getCode addr
  getCodeHash : ∀ addr, s'.getCodeHash addr = s.getCodeHash addr
  Exists : ∀ addr, s'.Exists addr = s.Exists addr

lemma SameReads.of_world_eq {s s' : State} {r r' : Reference} (h : Refines s r) (h' : Refines s' r')
    (hw : r.world = r'.world) : SameReads s s' := by
  have ha := h.agrees
  have ha' := h'.agrees
  exact ⟨fun addr => by rw [ha.getBalance, ha'.getBalance, hw],
    fun addr t => by rw [ha.getEnergy, ha'.getEnergy, hw],
    fun addr => by rw [ha.getMaster, ha'.getMaster, hw],
    fun addr key => by rw [h.getRawStorage, h'.getRawStorage, hw],
    fun addr key => by rw [ha.getStorage, ha'.getStorage, hw],
    fun addr => by rw [ha.getCode, ha'.getCode, hw],
    fun addr => by rw [ha.getCodeHash, ha'.getCodeHash, hw],
    fun addr => by rw [ha.Exists, ha'.Exists, hw]⟩

lemma SameReads.of_refines {s s' : State} {r : Reference} (h : Refines s r) (h' : Refines s' r) :
    SameReads s s' :=
  of_world_eq h h' rfl

lemma SameReads.refl (s : State) : SameReads s s :=
  ⟨fun _ => rfl, fun _ _ => rfl, fun _ => rfl, fun _ _ => rfl, fun _ _ => rfl, fun _ => rfl,
    fun _ => rfl, fun _ => rfl⟩

lemma above_newCheckpoint {s : State} (hwf : s.Wf) :
    ∃ r, Refines s r ∧ Above (r.snapshots ++ [r.world]) s.newCheckpoint.1 := by
  obtain ⟨r, hr⟩ := hwf.refines
  exact ⟨r, hr, _, hr.newCheckpoint, List.prefix_refl _⟩

/-- A computation that keeps what is saved below the world, run after a checkpoint and followed
by a revert to it, gives back the plain world and the snapshots it started from. -/
theorem revert_refines {α : Type} {m : Exec α} (hm : ∀ S, Keeps (Above S) m) {s : State}
    {r : Reference} (hr : Refines s r) {x : Except String α} {s₁ s₂ : State}
    (hrun : m.run.run s.newCheckpoint.1 = some (x, s₁))
    (hrev : s₁.revertTo s.newCheckpoint.2 = some s₂) : Refines s₂ r := by
  -- the checkpoint's snapshot is still saved when `m` ends, so the revert finds it
  obtain ⟨r₁, hr₁, hpre⟩ := hm _ _ ⟨_, hr.newCheckpoint, List.prefix_refl _⟩ x s₁ hrun
  obtain ⟨s₃, hs₃, hr₃⟩ := hr₁.revertTo_of_prefix hpre
  rw [hr.agrees.newCheckpoint, hs₃] at hrev
  obtain rfl := Option.some.inj hrev
  exact hr₃

/-- A computation that keeps what is saved below the world, run after a checkpoint and followed
by a revert to it, leaves the state reading as it did, and well formed. -/
theorem revert_sameReads {α : Type} {m : Exec α} (hm : ∀ S, Keeps (Above S) m) {s : State}
    (hwf : s.Wf) {x : Except String α} {s₁ s₂ : State}
    (hrun : m.run.run s.newCheckpoint.1 = some (x, s₁))
    (hrev : s₁.revertTo s.newCheckpoint.2 = some s₂) : SameReads s s₂ ∧ s₂.Wf := by
  obtain ⟨r, hr⟩ := hwf.refines
  have hr₂ := revert_refines hm hr hrun hrev
  exact ⟨SameReads.of_refines hr hr₂, hr₂.wf⟩

end AuthorityBlock.Runtime
