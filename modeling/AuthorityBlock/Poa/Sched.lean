import AuthorityBlock.Ablock.Types
import AuthorityBlock.Lib.ByteOrder
import AuthorityBlock.Lib.Grid
import AuthorityBlock.Lib.Word
import Mathlib

/-! The model of `poa/proposer.go` and `poa/sched.go`: the first scheduler, which draws the
proposer of each slot from the active list with `dprp`. Go's unbounded `for` loop in
`Schedule` runs here for at most `fuel` slots. -/

namespace AuthorityBlock.Poa

structure Proposer where
  address : Address
  active : Bool
deriving DecidableEq

/-- The loops of both constructors keep `addr`'s own entries and the active ones, in order. -/
def activesOf (addr : Address) (proposers : List Proposer) : List Proposer :=
  proposers.filter fun p => decide (p.address = addr) || p.active

/-- The `proposer` both constructors return: the last entry that lists `addr`. -/
def listedAs (addr : Address) (proposers : List Proposer) : Option Proposer :=
  (proposers.filter fun p => decide (p.address = addr)).getLast?

lemma listedAs_address {addr : Address} {proposers : List Proposer} {p : Proposer}
    (h : listedAs addr proposers = some p) : p.address = addr := by
  have := List.mem_of_getLast? h
  simp only [List.mem_filter, decide_eq_true_eq] at this
  exact this.2

lemma mem_activesOf_of_listedAs {addr : Address} {proposers : List Proposer} {p : Proposer}
    (h : listedAs addr proposers = some p) : p ∈ activesOf addr proposers := by
  have := List.mem_of_getLast? h
  simp only [List.mem_filter, decide_eq_true_eq] at this
  simp [activesOf, this.1, this.2]

/-- The slot both `Schedule`s start from: one interval after the parent, moved up to the
first aligned slot at or after `nowTime`. -/
def firstSlot (parentBlockTime nowTime : UInt64) : UInt64 :=
  let newBlockTime := parentBlockTime + BlockInterval
  if nowTime > newBlockTime then
    newBlockTime + (nowTime - newBlockTime + BlockInterval - 1) / BlockInterval * BlockInterval
  else newBlockTime

/-- The two guards of `IsTheTime` and `IsScheduled`: after the parent, on a slot boundary. -/
def onSlot (parentBlockTime blockTime : UInt64) : Bool :=
  !(parentBlockTime ≥ blockTime) && (blockTime - parentBlockTime) % BlockInterval == 0

lemma blockInterval_toNat : BlockInterval.toNat = 10 := rfl

lemma onSlot_iff {parentBlockTime blockTime : UInt64} :
    onSlot parentBlockTime blockTime ↔
      parentBlockTime.toNat < blockTime.toNat ∧
        (blockTime.toNat - parentBlockTime.toNat) % 10 = 0 := by
  simp only [onSlot, Bool.and_eq_true, Bool.not_eq_true', decide_eq_false_iff_not, ge_iff_le,
    UInt64.le_iff_toNat_le, not_le, beq_iff_eq]
  refine and_congr_right fun hlt => ?_
  rw [← UInt64.toNat_inj, UInt64.toNat_mod, Word.toNat_sub_of_toNat_le (Nat.le_of_lt hlt)]
  rfl

lemma firstSlot_toNat {parentBlockTime nowTime : UInt64}
    (hp : parentBlockTime.toNat + 10 < 2 ^ 64) (hn : nowTime.toNat + 10 ≤ 2 ^ 64) :
    (firstSlot parentBlockTime nowTime).toNat =
      Grid.firstAfter 10 parentBlockTime.toNat nowTime.toNat := by
  have hstart : (parentBlockTime + BlockInterval).toNat = parentBlockTime.toNat + 10 :=
    Word.toNat_add_of_lt hp
  unfold firstSlot Grid.firstAfter
  simp only [gt_iff_lt, UInt64.lt_iff_toNat_lt, hstart]
  split_ifs with h
  · -- each intermediate value of the rounding stays below `2 ^ 64`
    have hd : (nowTime - (parentBlockTime + BlockInterval)).toNat =
        nowTime.toNat - (parentBlockTime.toNat + 10) := by
      rw [Word.toNat_sub_of_toNat_le (by omega), hstart]
    have hd10 : (nowTime - (parentBlockTime + BlockInterval) + BlockInterval).toNat =
        nowTime.toNat - (parentBlockTime.toNat + 10) + 10 := by
      rw [Word.toNat_add_of_lt (by rw [hd, blockInterval_toNat]; omega), hd, blockInterval_toNat]
    have hd9 : (nowTime - (parentBlockTime + BlockInterval) + BlockInterval - 1).toNat =
        nowTime.toNat - (parentBlockTime.toNat + 10) + 10 - 1 := by
      rw [Word.toNat_sub_of_toNat_le (by rw [hd10, UInt64.toNat_one]; omega), hd10,
        UInt64.toNat_one]
    have hround := (Grid.ceil_mul_bounds (by norm_num : 0 < 10)
      (nowTime.toNat - (parentBlockTime.toNat + 10))).2
    have hq : ((nowTime - (parentBlockTime + BlockInterval) + BlockInterval - 1) / BlockInterval *
        BlockInterval).toNat =
          (nowTime.toNat - (parentBlockTime.toNat + 10) + 10 - 1) / 10 * 10 := by
      rw [Word.toNat_mul_of_lt] <;> rw [UInt64.toNat_div, hd9, blockInterval_toNat]
      omega
    rw [Word.toNat_add_of_lt (by rw [hstart, hq]; omega), hstart, hq]
  · exact hstart

lemma onSlot_of_eq_firstSlot_add {parentBlockTime nowTime u : UInt64} {j : ℕ}
    (hp : parentBlockTime.toNat + 10 < 2 ^ 64) (hn : nowTime.toNat + 10 ≤ 2 ^ 64)
    (hu : u.toNat = (firstSlot parentBlockTime nowTime).toNat + 10 * j) :
    onSlot parentBlockTime u := by
  rw [firstSlot_toNat hp hn] at hu
  have hlt : parentBlockTime.toNat < Grid.firstAfter 10 parentBlockTime.toNat nowTime.toNat :=
    Grid.lt_firstAfter (by norm_num)
  refine onSlot_iff.mpr ⟨by omega, ?_⟩
  rw [hu]
  exact Grid.firstAfter_add_sub_mod j

/-- What `Schedule` promises of its result `t`, for a scheduler whose slot test is
`isTheTime`: not before `nowTime`, after the parent, a slot of the proposer, and the first
such slot from `max(nowTime, parentBlockTime + T)` on. -/
structure Scheduled (isTheTime : UInt64 → Bool) (parentBlockTime nowTime t : UInt64) :
    Prop where
  now_le : nowTime ≤ t
  parent_lt : parentBlockTime < t
  isTheTime_eq : isTheTime t
  earliest : ∀ t', nowTime ≤ t' → parentBlockTime + BlockInterval ≤ t' → t' < t →
    ¬ isTheTime t'

lemma scheduled_of_first {isTheTime : UInt64 → Bool} {parentBlockTime nowTime t : UInt64}
    {k : ℕ} (hp : parentBlockTime.toNat + 10 < 2 ^ 64) (hn : nowTime.toNat + 10 ≤ 2 ^ 64)
    (hslot : ∀ u, isTheTime u → onSlot parentBlockTime u)
    (ht : t.toNat = (firstSlot parentBlockTime nowTime).toNat + 10 * k) (hyes : isTheTime t)
    (hno : ∀ j < k, ∀ u : UInt64,
      u.toNat = (firstSlot parentBlockTime nowTime).toNat + 10 * j → ¬ isTheTime u) :
    Scheduled isTheTime parentBlockTime nowTime t := by
  rw [firstSlot_toNat hp hn] at ht hno
  have hnow : nowTime.toNat ≤ Grid.firstAfter 10 parentBlockTime.toNat nowTime.toNat :=
    Grid.le_firstAfter (by norm_num)
  refine ⟨?_, ((onSlot_iff).mp (hslot t hyes)).1, hyes, ?_⟩
  · rw [UInt64.le_iff_toNat_le]
    omega
  · intro t' hnow' _ hlt hyes'
    obtain ⟨hp', hmod'⟩ := onSlot_iff.mp (hslot t' hyes')
    -- a slot of the proposer at or after `nowTime` is a later grid point
    obtain ⟨j, hj⟩ := Grid.exists_eq_firstAfter_add (by norm_num : 0 < 10) hp' hmod'
      (UInt64.le_iff_toNat_le.mp hnow')
    have hjk : j < k := by
      rw [UInt64.lt_iff_toNat_lt] at hlt
      omega
    exact hno j hjk t' hj hyes'

/-- `dprp`: the first eight bytes of `Blake2b(B, t)`, read big-endian. -/
def dprp (blockNumber : UInt32) (time : UInt64) : UInt64 :=
  ByteOrder.uint64BE
    (Blake2b [ByteOrder.putUint32BE blockNumber, ByteOrder.putUint64BE time]).bytes

structure SchedulerV1 where
  proposer : Proposer
  actives : List Proposer
  parentBlockNumber : UInt32
  parentBlockTime : UInt64
  proposer_mem : proposer ∈ actives

def newSchedulerV1 (addr : Address) (proposers : List Proposer) (parentBlockNumber : UInt32)
    (parentBlockTime : UInt64) : Except String SchedulerV1 :=
  match h : listedAs addr proposers with
  | none => .error "unauthorized block proposer"
  | some proposer =>
    .ok ⟨proposer, activesOf addr proposers, parentBlockNumber, parentBlockTime,
      mem_activesOf_of_listedAs h⟩

namespace SchedulerV1

-- `actives` holds `proposer`, so the index is always in range and the default is never read
def whoseTurn (s : SchedulerV1) (t : UInt64) : Proposer :=
  s.actives.getD (dprp s.parentBlockNumber t % s.actives.length.toUInt64).toNat s.proposer

/-- The loop of `Schedule` from slot `t`, for at most `fuel` slots. -/
def scheduleFrom (s : SchedulerV1) : ℕ → UInt64 → Option UInt64
  | 0, _ => none
  | fuel + 1, t =>
    if (s.whoseTurn t).address = s.proposer.address then some t
    else s.scheduleFrom fuel (t + BlockInterval)

def schedule (s : SchedulerV1) (fuel : ℕ) (nowTime : UInt64) : Option UInt64 :=
  s.scheduleFrom fuel (firstSlot s.parentBlockTime nowTime)

def isTheTime (s : SchedulerV1) (newBlockTime : UInt64) : Bool :=
  onSlot s.parentBlockTime newBlockTime &&
    (s.whoseTurn newBlockTime).address == s.proposer.address

/-- The loop of `Updates`: back from slot `t` while it is after the parent, for at most `i`
slots, collecting whose turn each slot was unless it was `proposer`'s. Go's map becomes an
association list keyed by address. -/
def missed (s : SchedulerV1) :
    ℕ → UInt64 → AList (fun _ : Address => Proposer) → AList (fun _ : Address => Proposer)
  | 0, _, toDeactivate => toDeactivate
  | i + 1, t, toDeactivate =>
    if t > s.parentBlockTime then
      let p := s.whoseTurn t
      s.missed i (t - BlockInterval)
        (if p.address ≠ s.proposer.address then toDeactivate.insert p.address p else toDeactivate)
    else toDeactivate

/-- `Updates`; the deactivations come in the association list's order, one of the orders Go's
map iteration may produce. -/
def updates (s : SchedulerV1) (newBlockTime : UInt64) : List Proposer × UInt64 :=
  let toDeactivate := s.missed InitialMaxBlockProposers.toNat (newBlockTime - BlockInterval) ∅
  let deactivated := toDeactivate.entries.map fun e => { e.2 with active := false }
  (if !s.proposer.active then deactivated ++ [{ s.proposer with active := true }]
    else deactivated,
   s.actives.length.toUInt64 - toDeactivate.entries.length.toUInt64)

lemma scheduleFrom_spec (s : SchedulerV1) {fuel : ℕ} {t₀ t : UInt64}
    (h : s.scheduleFrom fuel t₀ = some t) (hw : t₀.toNat + 10 * fuel < 2 ^ 64) :
    ∃ k < fuel, t.toNat = t₀.toNat + 10 * k ∧ (s.whoseTurn t).address = s.proposer.address ∧
      ∀ j < k, ∀ u : UInt64, u.toNat = t₀.toNat + 10 * j →
        (s.whoseTurn u).address ≠ s.proposer.address := by
  induction fuel generalizing t₀ with
  | zero => simp [scheduleFrom] at h
  | succ fuel ih =>
    simp only [scheduleFrom] at h
    split_ifs at h with hturn
    · cases h
      exact ⟨0, Nat.succ_pos _, by simp, hturn, fun j hj => absurd hj (Nat.not_lt_zero j)⟩
    · have hnext : (t₀ + BlockInterval).toNat = t₀.toNat + 10 :=
        Word.toNat_add_of_lt (by rw [blockInterval_toNat]; omega)
      obtain ⟨k, hk, ht, hyes, hno⟩ := ih h (by rw [hnext]; omega)
      refine ⟨k + 1, by omega, by rw [ht, hnext]; ring, hyes, ?_⟩
      rintro (_ | j) hj u hu
      · have hu₀ : u = t₀ := UInt64.toNat_inj.mp (by simpa using hu)
        rw [hu₀]
        exact hturn
      · exact hno j (by omega) u (by rw [hu, hnext]; ring)

lemma isTheTime_onSlot (s : SchedulerV1) {u : UInt64} (h : s.isTheTime u) :
    onSlot s.parentBlockTime u := by
  simp only [isTheTime, Bool.and_eq_true] at h
  exact h.1

/-- `Schedule` keeps its promise on every run whose slots stay below `2 ^ 64`. -/
theorem schedule_scheduled (s : SchedulerV1) {fuel : ℕ} {nowTime t : UInt64}
    (hp : s.parentBlockTime.toNat + 10 < 2 ^ 64) (hn : nowTime.toNat + 10 ≤ 2 ^ 64)
    (h : s.schedule fuel nowTime = some t)
    (hw : (firstSlot s.parentBlockTime nowTime).toNat + 10 * fuel < 2 ^ 64) :
    Scheduled s.isTheTime s.parentBlockTime nowTime t := by
  obtain ⟨k, -, ht, hyes, hno⟩ := s.scheduleFrom_spec h hw
  refine scheduled_of_first hp hn (fun u hu => s.isTheTime_onSlot hu) ht ?_ ?_
  · simp only [isTheTime, Bool.and_eq_true, beq_iff_eq]
    exact ⟨onSlot_of_eq_firstSlot_add hp hn ht, hyes⟩
  · intro j hj u hu hyes'
    simp only [isTheTime, Bool.and_eq_true, beq_iff_eq] at hyes'
    exact hno j hj u hu hyes'.2

lemma whoseTurn_mem (s : SchedulerV1) (t : UInt64) : s.whoseTurn t ∈ s.actives := by
  rw [whoseTurn, List.getD_eq_getElem?_getD]
  cases h : s.actives[(dprp s.parentBlockNumber t % s.actives.length.toUInt64).toNat]? with
  | none => exact s.proposer_mem
  | some p => exact List.mem_of_getElem? h

lemma missed_mem (s : SchedulerV1) :
    ∀ (i : ℕ) (t : UInt64) (acc : AList fun _ : Address => Proposer),
      (∀ e ∈ acc.entries, e.2 ∈ s.actives) → ∀ e ∈ (s.missed i t acc).entries, e.2 ∈ s.actives
  | 0, _, _, h => h
  | i + 1, t, acc, h => by
    rw [missed]
    split_ifs with ht
    · refine missed_mem s i _ _ fun e he => ?_
      split_ifs at he
      · rw [AList.entries_insert] at he
        rcases List.mem_cons.mp he with rfl | he
        · exact s.whoseTurn_mem t
        · exact h e ((List.kerase_sublist _ _).subset he)
      · exact h e he
    · exact h

lemma updates_address_mem (s : SchedulerV1) (newBlockTime : UInt64) :
    ∀ u ∈ (s.updates newBlockTime).1, u.address ∈ s.actives.map Proposer.address := by
  have hmissed := s.missed_mem InitialMaxBlockProposers.toNat (newBlockTime - BlockInterval) ∅
    (by simp)
  intro u hu
  simp only [updates] at hu
  have hdeact : ∀ u ∈ (s.missed InitialMaxBlockProposers.toNat (newBlockTime - BlockInterval)
      ∅).entries.map (fun e => { e.2 with active := false }),
      u.address ∈ s.actives.map Proposer.address := by
    intro u hu
    obtain ⟨e, he, rfl⟩ := List.mem_map.mp hu
    exact List.mem_map.mpr ⟨e.2, hmissed e he, rfl⟩
  split_ifs at hu
  · rcases List.mem_append.mp hu with hu | hu
    · exact hdeact u hu
    · rw [List.mem_singleton.mp hu]
      exact List.mem_map.mpr ⟨s.proposer, s.proposer_mem, rfl⟩
  · exact hdeact u hu

/-- Without a bound on the slots tried, the promise fails: with two active proposers and the
parent 31 s before `2 ^ 64`, the proposer's first turn at or after `nowTime` lies past
`2 ^ 64`, so the loop wraps and returns slot `9`, before `nowTime` and before the parent,
although `parentBlockTime + 3 * T` and `nowTime + 2 * T` stay below `2 ^ 64`. -/
theorem scheduleV1_wraps_below_now :
    (18446744073709551585 : UInt64).toNat + (2 + 1) * 10 < 2 ^ 64 ∧
    (18446744073709551595 : UInt64).toNat + 2 * 10 < 2 ^ 64 ∧
    ∃ s : SchedulerV1,
      newSchedulerV1 Address.zero [⟨Address.zero, true⟩, ⟨⟨List.replicate 19 0 ++ [1], rfl⟩, true⟩]
        5 18446744073709551585 = .ok s ∧
      s.schedule 4 18446744073709551595 = some 9 ∧ ¬ s.isTheTime 9 ∧
      (9 : UInt64) < 18446744073709551595 := by
  refine ⟨by decide, by decide, _, rfl, ?_, ?_, by decide⟩
  · decide +kernel
  · decide +kernel

end SchedulerV1

/-! ## A worked list of proposers -/

/-- The address whose last byte is `b`, all others zero. -/
def sampleAddress (b : UInt8) : Address := ⟨List.replicate 19 0 ++ [b], by simp⟩

/-- Four proposers, listed in the order of their addresses `1` to `4`; the third is
inactive. -/
def sampleProposers : List Proposer :=
  [⟨sampleAddress 1, true⟩, ⟨sampleAddress 2, true⟩, ⟨sampleAddress 3, false⟩,
    ⟨sampleAddress 4, true⟩]

end AuthorityBlock.Poa
