import AuthorityBlock.State.Journal

/-! One spec lemma per operation of `State`. A well-formed state (`Wf`) reads, through its
stacked map, the world its journal stands for; each setter appends its entries to the top
level (`Writes`) and moves that world as the plain model says; `NewCheckpoint` opens an empty
level and `RevertTo` keeps the lowest levels. -/

namespace AuthorityBlock.State

open WriteLog StackedMap

def Committed.value (c : Committed) : Key → Value
  | .account addr => .account (c.account addr)
  | .code addr => .code (c.code addr)
  | .storage addr barrier key => .raw (if barrier ≠ 0 then [] else c.storage addr key)
  | .storageBarrier _ => .barrier 0

lemma cacheGetter_eq (c : Committed) (key : Key) :
    cacheGetter c key = .ok (some (c.value key)) := by
  cases key <;> rfl

/-- The journal of each level, lowest first. -/
def journals (s : State) : List (List (Key × Value)) := s.sm.mapStack.map Level.journal

lemma entries_eq_flatten (s : State) : s.sm.entries = s.journals.flatten := List.flatMap_def

/-- What the reads need. A state whose base level `RevertTo(0)` popped is readable but cannot
be written. -/
structure Readable (s : State) : Prop where
  rep : RepInv s.sm
  valid : Valid s.sm.entries

structure Wf (s : State) : Prop extends Readable s where
  ne_nil : s.sm.mapStack ≠ []

/-- `s'` is `s` with the entries `es` written on its top level. -/
def Writes (s s' : State) (es : List (Key × Value)) : Prop :=
  s'.committed = s.committed ∧ ∃ js j, s.journals = js ++ [j] ∧ s'.journals = js ++ [j ++ es]

variable {s s' s'' : State}

lemma Writes.trans {es es' : List (Key × Value)} (h : Writes s s' es) (h' : Writes s' s'' es') :
    Writes s s'' (es ++ es') := by
  obtain ⟨hc, js, j, hs, hs₁⟩ := h
  obtain ⟨hc₁, js₁, j₁, hs₂, hs₃⟩ := h'
  obtain ⟨rfl, hj⟩ := List.append_inj' (hs₁.symm.trans hs₂) rfl
  cases List.singleton_inj.mp hj
  exact ⟨hc₁.trans hc, js, j, hs, by rw [hs₃, List.append_assoc]⟩

lemma Writes.entries {es : List (Key × Value)} (h : Writes s s' es) :
    s'.sm.entries = s.sm.entries ++ es := by
  obtain ⟨-, js, j, hs, hs'⟩ := h
  rw [entries_eq_flatten, entries_eq_flatten, hs, hs']
  simp

/-! ## Reads -/

lemma Readable.get_eq (h : s.Readable) (key : Key) :
    s.get key = some ((lastWrite s.sm.entries key).getD (s.committed.value key)) := by
  unfold get
  rw [h.rep.get_eq]
  cases lastWrite s.sm.entries key with
  | none => simp [hitOrSrc, cacheGetter_eq]
  | some v => rfl

lemma Readable.getAccount_eq (h : s.Readable) (addr : Address) :
    s.getAccount addr = some (accountOf s.committed s.sm.entries addr) := by
  unfold getAccount accountOf
  rw [h.get_eq]
  cases hw : lastWrite s.sm.entries (.account addr) with
  | none => rfl
  | some v =>
    have hk := h.valid.kindOk hw
    cases v <;> first | rfl | exact absurd hk id

lemma Readable.getCode_eq (h : s.Readable) (addr : Address) :
    s.getCode addr = some (codeOf s.committed s.sm.entries addr) := by
  unfold getCode codeOf
  rw [h.get_eq]
  cases hw : lastWrite s.sm.entries (.code addr) with
  | none => rfl
  | some v =>
    have hk := h.valid.kindOk hw
    cases v <;> first | rfl | exact absurd hk id

lemma Readable.getStorageBarrier_eq (h : s.Readable) (addr : Address) :
    s.getStorageBarrier addr = some (barrierOf s.sm.entries addr) := by
  unfold getStorageBarrier barrierOf
  rw [h.get_eq]
  cases hw : lastWrite s.sm.entries (.storageBarrier addr) with
  | none => rfl
  | some v =>
    have hk := h.valid.kindOk hw
    cases v <;> first | rfl | exact absurd hk id

lemma Readable.getRawStorage_eq (h : s.Readable) (addr : Address) (key : Bytes32) :
    s.getRawStorage addr key = some (storageOf s.committed s.sm.entries addr key) := by
  unfold getRawStorage storageOf
  rw [h.getStorageBarrier_eq, Option.bind_eq_bind, Option.bind_some, h.get_eq]
  cases hw : lastWrite s.sm.entries (.storage addr (barrierOf s.sm.entries addr) key) with
  | none =>
    change some (if _ then _ else _) = _
    split_ifs <;> rfl
  | some v =>
    have hk := h.valid.kindOk hw
    cases v <;> first | rfl | exact absurd hk id

/-! ## Writes -/

lemma Wf.put (h : s.Wf) (key : Key) (value : Value) (hok : EntryOk s.sm.entries (key, value)) :
    ∃ s', s.put key value = some s' ∧ s'.Wf ∧ Writes s s' [(key, value)] := by
  obtain ⟨levels, top, hl⟩ := exists_concat_of_ne_nil h.ne_nil
  have hput : s.sm.put key value = some (ofLevels (levels ++ [putLevel top key value])) := by
    rw [h.rep.eq_ofLevels, hl, put_ofLevels]
  have hrep : RepInv (ofLevels (levels ++ [putLevel top key value])) :=
    h.rep.apply (show (StackedMap.Op.put key value).apply s.sm = some _ from hput)
  have hw : Writes s ⟨s.committed, ofLevels (levels ++ [putLevel top key value])⟩
      [(key, value)] :=
    ⟨rfl, levels.map Level.journal, top.journal, by simp [journals, hl],
      by simp [journals, putLevel]⟩
  refine ⟨_, by simp [State.put, hput], ⟨⟨hrep, ?_⟩, by simp⟩, hw⟩
  rw [hw.entries]
  exact valid_concat_iff.mpr ⟨h.valid, hok⟩

lemma Wf.updateAccount (h : s.Wf) (addr : Address) (f : Account → Account) :
    ∃ s', (s.getAccount addr).bind (fun cpy => s.updateAccount addr (f cpy)) = some s' ∧ s'.Wf ∧
      Writes s s' [(.account addr, .account (f (accountOf s.committed s.sm.entries addr)))] := by
  rw [h.getAccount_eq, Option.bind_some]
  exact h.put _ _ trivial

lemma Wf.setRawStorage (h : s.Wf) (addr : Address) (key : Bytes32) (raw : List UInt8) :
    ∃ s', s.setRawStorage addr key raw = some s' ∧ s'.Wf ∧
      Writes s s' [(.storage addr (barrierOf s.sm.entries addr) key, .raw raw)] := by
  unfold State.setRawStorage
  rw [h.getStorageBarrier_eq, Option.bind_eq_bind, Option.bind_some]
  exact h.put _ _ rfl

lemma Wf.setCode (h : s.Wf) (keccak256 : List UInt8 → List UInt8) (addr : Address)
    (code : List UInt8) :
    ∃ s', s.setCode keccak256 addr code = some s' ∧ s'.Wf ∧
      Writes s s' [(.code addr, .code code), (.account addr,
        .account { accountOf s.committed s.sm.entries addr with
          codeHash := if code.length > 0 then keccak256 code else [] })] := by
  obtain ⟨s₁, hs₁, hwf₁, hw₁⟩ := h.put (.code addr) (.code code) trivial
  obtain ⟨s₂, hs₂, hwf₂, hw₂⟩ := hwf₁.updateAccount addr fun cpy =>
    { cpy with codeHash := if code.length > 0 then keccak256 code else [] }
  have hacc : accountOf s₁.committed s₁.sm.entries addr = accountOf s.committed s.sm.entries addr := by
    rw [hw₁.entries, hw₁.1]
    simp [accountOf]
  refine ⟨s₂, ?_, hwf₂, by simpa [hacc] using hw₁.trans hw₂⟩
  simp only [State.setCode, hs₁, Option.bind_eq_bind, Option.bind_some]
  exact hs₂

lemma Wf.delete (h : s.Wf) (addr : Address) :
    ∃ s', s.delete addr = some s' ∧ s'.Wf ∧
      Writes s s' [(.code addr, .code []), (.account addr, .account emptyAccount),
        (.storageBarrier addr, .barrier (barrierOf s.sm.entries addr + 1))] := by
  obtain ⟨s₁, hs₁, hwf₁, hw₁⟩ := h.put (.code addr) (.code []) trivial
  obtain ⟨s₂, hs₂, hwf₂, hw₂⟩ := hwf₁.put (.account addr) (.account emptyAccount) trivial
  have hb : barrierOf s₂.sm.entries addr = barrierOf s.sm.entries addr := by
    rw [hw₂.entries, hw₁.entries, barrierOf_concat, barrierOf_concat]
    simp
  obtain ⟨s₃, hs₃, hwf₃, hw₃⟩ := hwf₂.put (.storageBarrier addr)
    (.barrier (barrierOf s.sm.entries addr + 1))
    (show barrierOf s.sm.entries addr + 1 = barrierOf s₂.sm.entries addr + 1 by rw [hb])
  refine ⟨s₃, ?_, hwf₃, (hw₁.trans hw₂).trans hw₃⟩
  simp only [State.delete, hs₁, Option.bind_eq_bind, Option.bind_some, State.updateAccount, hs₂,
    hwf₂.getStorageBarrier_eq, hb, State.setStorageBarrier]
  exact hs₃

/-! ## Checkpoints -/

lemma Readable.newCheckpoint (h : s.Readable) :
    s.newCheckpoint.1.Wf ∧ s.newCheckpoint.1.committed = s.committed ∧
      s.newCheckpoint.1.journals = s.journals ++ [[]] ∧
      s.newCheckpoint.2 = s.journals.length := by
  have hp := h.rep.push_eq
  have hrep : RepInv (ofLevels (s.sm.mapStack ++ [newLevel])) :=
    h.rep.apply (show (StackedMap.Op.push : StackedMap.Op Key Value).apply s.sm = some _ by
      rw [StackedMap.Op.apply, hp])
  have hs : s.newCheckpoint =
      (⟨s.committed, ofLevels (s.sm.mapStack ++ [newLevel])⟩, s.sm.mapStack.length) := by
    simp only [State.newCheckpoint, hp]
  rw [hs]
  refine ⟨⟨⟨hrep, ?_⟩, by simp⟩, rfl, by simp [journals, newLevel], by simp [journals]⟩
  simpa [StackedMap.entries, newLevel] using h.valid

lemma Readable.revertTo (h : s.Readable) (revision : ℕ) :
    ∃ s', s.revertTo revision = some s' ∧ s'.Readable ∧ s'.committed = s.committed ∧
      s'.journals = s.journals.take revision := by
  have hpop : s.sm.popTo revision = some (ofLevels (s.sm.mapStack.take revision)) := by
    by_cases hd : revision ≤ s.sm.depth
    · exact h.rep.popTo_eq hd
    · rw [popTo, Nat.sub_eq_zero_of_le (by unfold depth at hd; omega), popTimes,
        List.take_of_length_le (by unfold depth at hd; omega), ← h.rep.eq_ofLevels]
  have hrep : RepInv (ofLevels (s.sm.mapStack.take revision)) :=
    h.rep.apply (show (StackedMap.Op.popTo revision : StackedMap.Op Key Value).apply s.sm = some _ from hpop)
  have hvalid : Valid (ofLevels (s.sm.mapStack.take revision)).entries := by
    have hv : Valid ((s.sm.mapStack.take revision ++ s.sm.mapStack.drop revision).flatMap
        Level.journal) := by
      rw [List.take_append_drop]
      exact h.valid
    rw [List.flatMap_append] at hv
    exact hv.of_append
  exact ⟨⟨s.committed, ofLevels (s.sm.mapStack.take revision)⟩, by simp [State.revertTo, hpop],
    ⟨hrep, hvalid⟩, rfl, by simp [journals, List.map_take]⟩

lemma Wf.revertTo (h : s.Wf) {revision : ℕ} (hr : 0 < revision) :
    ∃ s', s.revertTo revision = some s' ∧ s'.Wf ∧ s'.committed = s.committed ∧
      s'.journals = s.journals.take revision := by
  obtain ⟨s', hs, hread, hc, hj⟩ := h.toReadable.revertTo revision
  refine ⟨s', hs, ⟨hread, ?_⟩, hc, hj⟩
  have hlen := congrArg List.length hj
  simp only [journals, List.length_map, List.length_take] at hlen
  have hpos : 0 < s.sm.mapStack.length := List.length_pos_iff.mpr h.ne_nil
  exact List.ne_nil_of_length_pos (by omega)

lemma wf_new (c : Committed) : (new c).Wf :=
  ⟨⟨repInv_new, by simpa [new, StackedMap.new, StackedMap.entries, newLevel] using valid_nil⟩,
    by simp [new, StackedMap.new]⟩

lemma new_entries (c : Committed) : (new c).sm.entries = [] := rfl

lemma new_getAccount (c : Committed) (addr : Address) :
    (new c).getAccount addr = some (c.account addr) := by
  rw [(wf_new c).getAccount_eq, new_entries]
  rfl

lemma new_getCode (c : Committed) (addr : Address) : (new c).getCode addr = some (c.code addr) := by
  rw [(wf_new c).getCode_eq, new_entries]
  rfl

lemma new_getRawStorage (c : Committed) (addr : Address) (key : Bytes32) :
    (new c).getRawStorage addr key = some (c.storage addr key) := by
  rw [(wf_new c).getRawStorage_eq, new_entries]
  rfl

lemma put_eq_none (h : s.sm.mapStack = []) (key : Key) (value : Value) : s.put key value = none := by
  simp [State.put, StackedMap.put, Stack.top, h]

/-! ## The committed world -/

lemma put_committed {key : Key} {value : Value} (h : s.put key value = some s') :
    s'.committed = s.committed := by
  obtain ⟨sm, -, rfl⟩ := Option.map_eq_some_iff.mp h
  rfl

lemma updateAccount_committed {addr : Address} {f : Account → Account}
    (h : (s.getAccount addr).bind (fun cpy => s.updateAccount addr (f cpy)) = some s') :
    s'.committed = s.committed := by
  obtain ⟨_, _, hput⟩ := Option.bind_eq_some_iff.mp h
  exact put_committed hput

lemma Op.apply_committed (keccak256 : List UInt8 → List UInt8) {op : Op}
    (h : op.apply keccak256 s = some s') : s'.committed = s.committed := by
  cases op with
  | setBalance addr balance => exact updateAccount_committed h
  | setEnergy addr energy blockTime => exact updateAccount_committed h
  | setMaster addr master => exact updateAccount_committed h
  | setCode addr code =>
    obtain ⟨s₁, hs₁, h₁⟩ := Option.bind_eq_some_iff.mp h
    exact (updateAccount_committed h₁).trans (put_committed hs₁)
  | setStorage addr key value | setRawStorage addr key raw =>
    obtain ⟨_, _, hput⟩ := Option.bind_eq_some_iff.mp h
    exact put_committed hput
  | delete addr =>
    obtain ⟨s₁, hs₁, h₁⟩ := Option.bind_eq_some_iff.mp h
    obtain ⟨s₂, hs₂, h₂⟩ := Option.bind_eq_some_iff.mp h₁
    obtain ⟨_, _, h₃⟩ := Option.bind_eq_some_iff.mp h₂
    exact ((put_committed h₃).trans (put_committed hs₂)).trans (put_committed hs₁)
  | newCheckpoint =>
    cases h
    rfl
  | revertTo revision =>
    obtain ⟨sm, -, rfl⟩ := Option.map_eq_some_iff.mp h
    rfl

lemma run_committed (keccak256 : List UInt8 → List UInt8) {ops : List Op}
    (h : State.run keccak256 s ops = some s') : s'.committed = s.committed := by
  induction ops generalizing s with
  | nil =>
    cases h
    rfl
  | cons op ops ih =>
    obtain ⟨s₁, hs₁, hrun⟩ := Option.bind_eq_some_iff.mp h
    exact (ih hrun).trans (Op.apply_committed keccak256 hs₁)

end AuthorityBlock.State
