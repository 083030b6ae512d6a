import AuthorityBlock.State.Spec

/-! What the setters keep between an account and the rest of its address. An account entry
copies the storage root it replaces, and only `Delete`, which also bumps the barrier, writes
the empty one; the code hash is the hash of the last code written, or the committed one. Both
hold at every level of a state its operations reach, since a checkpoint only cuts the journal
between two operations. -/

namespace AuthorityBlock.State

open WriteLog StackedMap

def codeHashOf (keccak256 : List UInt8 → List UInt8) (code : List UInt8) : List UInt8 :=
  if code.length > 0 then keccak256 code else []

structure Consistent (keccak256 : List UInt8 → List UInt8) (c : Committed)
    (es : List (Key × Value)) : Prop where
  storageRoot : ∀ addr, (accountOf c es addr).storageRoot =
    if barrierOf es addr = 0 then (c.account addr).storageRoot else []
  codeHash : ∀ addr, (accountOf c es addr).codeHash =
    match lastWrite es (.code addr) with
    | some (.code code) => codeHashOf keccak256 code
    | _ => (c.account addr).codeHash

section Entries

variable {keccak256 : List UInt8 → List UInt8} {c : Committed} {es : List (Key × Value)}

lemma consistent_nil : Consistent keccak256 c [] :=
  ⟨fun addr => by simp [accountOf, barrierOf], fun addr => by simp [accountOf]⟩

lemma Consistent.account (h : Consistent keccak256 c es) (addr : Address) (a : Account)
    (hr : a.storageRoot = (accountOf c es addr).storageRoot)
    (hc : a.codeHash = (accountOf c es addr).codeHash) :
    Consistent keccak256 c (es ++ [(.account addr, .account a)]) := by
  constructor
  · intro addr'
    by_cases ha : addr = addr'
    · subst ha
      simpa [hr] using h.storageRoot addr
    · simpa [ha] using h.storageRoot addr'
  · intro addr'
    by_cases ha : addr = addr'
    · subst ha
      simpa [hc] using h.codeHash addr
    · simpa [ha] using h.codeHash addr'

lemma Consistent.storage (h : Consistent keccak256 c es) (addr : Address) (b : ℕ) (key : Bytes32)
    (raw : List UInt8) : Consistent keccak256 c (es ++ [(.storage addr b key, .raw raw)]) :=
  ⟨fun addr' => by simpa using h.storageRoot addr', fun addr' => by simpa using h.codeHash addr'⟩

lemma Consistent.setCode (h : Consistent keccak256 c es) (addr : Address) (code : List UInt8) :
    Consistent keccak256 c (es ++ [(.code addr, .code code), (.account addr,
      .account { accountOf c es addr with codeHash := codeHashOf keccak256 code })]) := by
  rw [show ∀ x y : Key × Value, es ++ [x, y] = es ++ [x] ++ [y] by simp]
  constructor
  · intro addr'
    by_cases ha : addr = addr'
    · subst ha
      simpa [-List.append_assoc] using h.storageRoot addr
    · simpa [-List.append_assoc, ha] using h.storageRoot addr'
  · intro addr'
    by_cases ha : addr = addr'
    · subst ha
      simp [-List.append_assoc]
    · simpa [-List.append_assoc, ha] using h.codeHash addr'

lemma Consistent.delete (h : Consistent keccak256 c es) (addr : Address) :
    Consistent keccak256 c (es ++ [(.code addr, .code []), (.account addr, .account emptyAccount),
      (.storageBarrier addr, .barrier (barrierOf es addr + 1))]) := by
  rw [show ∀ x y z : Key × Value, es ++ [x, y, z] = es ++ [x] ++ [y] ++ [z] by simp]
  constructor
  · intro addr'
    by_cases ha : addr = addr'
    · subst ha
      simp [-List.append_assoc, emptyAccount]
    · simpa [-List.append_assoc, ha] using h.storageRoot addr'
  · intro addr'
    by_cases ha : addr = addr'
    · subst ha
      simp [-List.append_assoc, emptyAccount, codeHashOf]
    · simpa [-List.append_assoc, ha] using h.codeHash addr'

end Entries

/-! ## Every level -/

def AllLevels (P : List (Key × Value) → Prop) (s : State) : Prop :=
  ∀ i, P (s.journals.take i).flatten

section Levels

variable {P : List (Key × Value) → Prop} {s s' : State}

lemma AllLevels.entries (h : AllLevels P s) : P s.sm.entries := by
  have := h s.journals.length
  rwa [List.take_length, ← entries_eq_flatten] at this

lemma AllLevels.writes {es : List (Key × Value)} (h : AllLevels P s) (hw : Writes s s' es)
    (hp : P (s.sm.entries ++ es)) : AllLevels P s' := by
  obtain ⟨-, js, j, hs, hs'⟩ := hw
  intro i
  rw [hs']
  by_cases hi : i ≤ js.length
  · have := h i
    rw [hs, List.take_append_of_le_length hi] at this
    rwa [List.take_append_of_le_length hi]
  · rw [List.take_of_length_le (by simp only [List.length_append, List.length_singleton]; omega)]
    rw [entries_eq_flatten, hs] at hp
    simpa using hp

lemma AllLevels.newCheckpoint (h : AllLevels P s) (hs : s.Readable) :
    AllLevels P s.newCheckpoint.1 := by
  obtain ⟨-, -, hj, -⟩ := hs.newCheckpoint
  intro i
  rw [hj]
  by_cases hi : i ≤ s.journals.length
  · rw [List.take_append_of_le_length hi]
    exact h i
  · rw [List.take_of_length_le (by simp only [List.length_append, List.length_singleton]; omega)]
    simpa using h s.journals.length

lemma AllLevels.take {revision : ℕ} (h : AllLevels P s)
    (hj : s'.journals = s.journals.take revision) : AllLevels P s' := by
  intro i
  rw [hj, List.take_take]
  exact h _

lemma allLevels_new (c : Committed) (hp : P []) : AllLevels P (new c) := by
  intro i
  cases i <;> simpa [journals, new, StackedMap.new, newLevel] using hp

end Levels

/-- A state its operations reach: readable, and consistent at every level. -/
structure Sound (keccak256 : List UInt8 → List UInt8) (s : State) : Prop where
  readable : s.Readable
  consistent : AllLevels (Consistent keccak256 s.committed) s

section Ops

variable {keccak256 : List UInt8 → List UInt8} {s s' : State}

lemma Sound.writes {es : List (Key × Value)} (h : Sound keccak256 s) (hwf : s'.Wf)
    (hw : Writes s s' es) (hp : Consistent keccak256 s.committed (s.sm.entries ++ es)) :
    Sound keccak256 s' :=
  ⟨hwf.toReadable, by rw [hw.1]; exact h.consistent.writes hw hp⟩

lemma Sound.updateAccount (h : Sound keccak256 s) (addr : Address) (f : Account → Account)
    (hr : ∀ a, (f a).storageRoot = a.storageRoot) (hc : ∀ a, (f a).codeHash = a.codeHash)
    (hs : (s.getAccount addr).bind (fun cpy => s.updateAccount addr (f cpy)) = some s') :
    Sound keccak256 s' := by
  have hne : s.sm.mapStack ≠ [] := by
    intro h0
    simp [State.updateAccount, put_eq_none h0] at hs
  obtain ⟨s'', hs'', hwf, hw⟩ := Wf.updateAccount ⟨h.readable, hne⟩ addr f
  cases hs.symm.trans hs''
  exact h.writes hwf hw (h.consistent.entries.account addr _ (hr _) (hc _))

lemma Sound.setRawStorage (h : Sound keccak256 s) (addr : Address) (key : Bytes32)
    (raw : List UInt8) (hs : s.setRawStorage addr key raw = some s') : Sound keccak256 s' := by
  have hne : s.sm.mapStack ≠ [] := by
    intro h0
    simp [State.setRawStorage, put_eq_none h0] at hs
  obtain ⟨s'', hs'', hwf, hw⟩ := Wf.setRawStorage ⟨h.readable, hne⟩ addr key raw
  cases hs.symm.trans hs''
  exact h.writes hwf hw (h.consistent.entries.storage addr _ key _)

lemma Sound.apply {op : Op} (h : Sound keccak256 s) (hs : op.apply keccak256 s = some s') :
    Sound keccak256 s' := by
  cases op with
  | setBalance addr balance =>
    exact h.updateAccount addr (fun a => { a with balance }) (fun _ => rfl) (fun _ => rfl) hs
  | setEnergy addr energy blockTime =>
    exact h.updateAccount addr (fun a => { a with energy, blockTime }) (fun _ => rfl)
      (fun _ => rfl) hs
  | setMaster addr master =>
    exact h.updateAccount addr
      (fun a => { a with master := if master.IsZero then [] else master.bytes }) (fun _ => rfl)
      (fun _ => rfl) hs
  | setCode addr code =>
    have hne : s.sm.mapStack ≠ [] := by
      intro h0
      simp [Op.apply, State.setCode, put_eq_none h0] at hs
    obtain ⟨s'', hs'', hwf, hw⟩ := Wf.setCode ⟨h.readable, hne⟩ keccak256 addr code
    cases hs.symm.trans hs''
    exact h.writes hwf hw (h.consistent.entries.setCode addr code)
  | setStorage addr key value => exact h.setRawStorage addr key (encodeStorage value) hs
  | setRawStorage addr key raw => exact h.setRawStorage addr key raw hs
  | delete addr =>
    have hne : s.sm.mapStack ≠ [] := by
      intro h0
      simp [Op.apply, State.delete, put_eq_none h0] at hs
    obtain ⟨s'', hs'', hwf, hw⟩ := Wf.delete ⟨h.readable, hne⟩ addr
    cases hs.symm.trans hs''
    exact h.writes hwf hw (h.consistent.entries.delete addr)
  | newCheckpoint =>
    cases hs
    obtain ⟨hwf, hc, -, -⟩ := h.readable.newCheckpoint
    exact ⟨hwf.toReadable, by rw [hc]; exact h.consistent.newCheckpoint h.readable⟩
  | revertTo revision =>
    obtain ⟨s'', hs'', hread, hc, hj⟩ := h.readable.revertTo revision
    cases hs.symm.trans hs''
    exact ⟨hread, by rw [hc]; exact h.consistent.take hj⟩

lemma Sound.run {ops : List Op} (h : Sound keccak256 s) (hs : State.run keccak256 s ops = some s') :
    Sound keccak256 s' := by
  induction ops generalizing s with
  | nil =>
    cases hs
    exact h
  | cons op ops ih =>
    obtain ⟨s₁, hs₁, hrun⟩ := Option.bind_eq_some_iff.mp hs
    exact ih (h.apply hs₁) hrun

lemma sound_new (c : Committed) : Sound keccak256 (new c) :=
  ⟨(wf_new c).toReadable, allLevels_new c consistent_nil⟩

end Ops

end AuthorityBlock.State
