import AuthorityBlock.Poa.Sched
import Mathlib

/-! The model of `poa/sched_v2.go`: the second scheduler shuffles the proposers once per
block by `Blake2b(seed, number, address)` and then takes slots in turn from the shuffled
list, rotated by the number of slots since the parent. A `panic` is `none`. -/

namespace AuthorityBlock.Poa

structure SchedulerV2 where
  proposer : Proposer
  parentBlockTime : UInt64
  shuffled : List Address
  proposer_mem : proposer.address ∈ shuffled

/-- The entries `NewSchedulerV2` sorts, each with its sort key `Blake2b(seed, num, addr)`. -/
def hashed (addr : Address) (proposers : List Proposer) (parentBlockNumber : UInt32)
    (seed : List UInt8) : List (Address × Bytes32) :=
  (activesOf addr proposers).map fun p =>
    (p.address, Blake2b [seed, ByteOrder.putUint32BE parentBlockNumber, p.address.bytes])

/-- `sort.Slice` by `bytes.Compare` of the keys, then the addresses. The merge sort is
stable and `sort.Slice` is not: they can differ only on entries with equal keys. -/
def shuffle (list : List (Address × Bytes32)) : List Address :=
  (list.mergeSort fun a b => ByteOrder.compareBytes a.2.bytes b.2.bytes != .gt).map Prod.fst

lemma mem_shuffle {list : List (Address × Bytes32)} {a : Address} :
    a ∈ shuffle list ↔ a ∈ list.map Prod.fst := by
  simp only [shuffle, List.mem_map, List.mem_mergeSort]

lemma length_shuffle (list : List (Address × Bytes32)) :
    (shuffle list).length = list.length := by
  simp [shuffle, List.length_mergeSort]

lemma keyLe_iff (a b : Address × Bytes32) :
    (ByteOrder.compareBytes a.2.bytes b.2.bytes != .gt) = true ↔
      ByteOrder.beValue a.2.bytes ≤ ByteOrder.beValue b.2.bytes := by
  rw [ByteOrder.compareBytes_eq_compare (by rw [a.2.length_eq, b.2.length_eq]), bne_iff_ne,
    ne_eq, Nat.compare_eq_gt, not_lt]

lemma shuffle_eq_insertionSort {list : List (Address × Bytes32)}
    (hkeys : (list.map fun a => ByteOrder.beValue a.2.bytes).Nodup) :
    shuffle list = (list.insertionSort fun a b =>
      ByteOrder.beValue a.2.bytes ≤ ByteOrder.beValue b.2.bytes).map Prod.fst := by
  have : Std.Total fun a b : Address × Bytes32 =>
      ByteOrder.beValue a.2.bytes ≤ ByteOrder.beValue b.2.bytes := ⟨fun _ _ => le_total _ _⟩
  have : IsTrans _ fun a b : Address × Bytes32 =>
      ByteOrder.beValue a.2.bytes ≤ ByteOrder.beValue b.2.bytes := ⟨fun _ _ _ => le_trans⟩
  have hms : (list.mergeSort fun a b => ByteOrder.compareBytes a.2.bytes b.2.bytes != .gt).Pairwise
      fun a b => (ByteOrder.compareBytes a.2.bytes b.2.bytes != .gt) = true := List.pairwise_mergeSort
    (fun a b c hab hbc =>
      (keyLe_iff a c).mpr (((keyLe_iff a b).mp hab).trans ((keyLe_iff b c).mp hbc)))
    (fun a b => by
      rw [Bool.or_eq_true, keyLe_iff, keyLe_iff]
      exact le_total _ _)
    list
  -- both sorts order the entries by key, and no two entries share one
  have heq : list.mergeSort (fun a b => ByteOrder.compareBytes a.2.bytes b.2.bytes != .gt) =
      list.insertionSort fun a b => ByteOrder.beValue a.2.bytes ≤ ByteOrder.beValue b.2.bytes := by
    refine @List.Perm.eq_of_pairwise _
      (fun a b => ByteOrder.beValue a.2.bytes ≤ ByteOrder.beValue b.2.bytes) _ _
      ?_ (hms.imp fun h => (keyLe_iff _ _).mp h) (List.pairwise_insertionSort _ list)
      ((List.mergeSort_perm _ _).trans (List.perm_insertionSort _ list).symm)
    intro a b ha hb hab hba
    exact List.inj_on_of_nodup_map hkeys ((List.mergeSort_perm _ _).mem_iff.mp ha)
      ((List.perm_insertionSort _ list).mem_iff.mp hb) (le_antisymm hab hba)
  rw [shuffle, heq]

lemma mem_shuffle_hashed_of_listedAs {addr : Address} {proposers : List Proposer}
    {p : Proposer} (parentBlockNumber : UInt32) (seed : List UInt8)
    (h : listedAs addr proposers = some p) :
    p.address ∈ shuffle (hashed addr proposers parentBlockNumber seed) := by
  rw [mem_shuffle, hashed, List.map_map]
  exact List.mem_map_of_mem (mem_activesOf_of_listedAs h)

def newSchedulerV2 (addr : Address) (proposers : List Proposer) (parentBlockNumber : UInt32)
    (parentBlockTime : UInt64) (seed : List UInt8) : Except String SchedulerV2 :=
  match h : listedAs addr proposers with
  | none => .error "unauthorized block proposer"
  | some proposer =>
    .ok ⟨proposer, parentBlockTime, shuffle (hashed addr proposers parentBlockNumber seed),
      mem_shuffle_hashed_of_listedAs parentBlockNumber seed h⟩

namespace SchedulerV2

variable (s : SchedulerV2)

/-- The test of `Schedule`'s loop at `i`: is the entry `i + offset` places into the list, read
cyclically, the proposer? -/
def isProposerAt (offset : UInt64) (i : ℕ) : Bool :=
  s.shuffled[((i.toUInt64 + offset) % s.shuffled.length.toUInt64).toNat]? ==
    some s.proposer.address

-- Go's loop runs `i` over `0 ≤ i < n` in `uint64`; the first `i` whose slot is the
-- proposer's is returned, and falling out of the loop is the `panic`
def schedule (nowTime : UInt64) : Option UInt64 :=
  let newBlockTime := firstSlot s.parentBlockTime nowTime
  let offset := (newBlockTime - s.parentBlockTime) / BlockInterval - 1
  ((List.range s.shuffled.length).find? (s.isProposerAt offset)).map
    fun i => newBlockTime + i.toUInt64 * BlockInterval

def isScheduled (blockTime : UInt64) (proposer : Address) : Bool :=
  onSlot s.parentBlockTime blockTime &&
    s.shuffled[((blockTime - s.parentBlockTime - BlockInterval) / BlockInterval %
      s.shuffled.length.toUInt64).toNat]? == some proposer

def isTheTime (newBlockTime : UInt64) : Bool := s.isScheduled newBlockTime s.proposer.address

/-- The loop of `Updates` from index `i`: the proposers of the slots before `newBlockTime`,
other than `proposer`, are deactivated. -/
def deactivated (newBlockTime : UInt64) : ℕ → List Address → List Proposer
  | _, [] => []
  | i, a :: rest =>
    if s.parentBlockTime + BlockInterval + i.toUInt64 * BlockInterval ≥ newBlockTime then []
    else (if a ≠ s.proposer.address then [⟨a, false⟩] else []) ++
      deactivated newBlockTime (i + 1) rest

def updates (newBlockTime : UInt64) : List Proposer × UInt64 :=
  let updates := s.deactivated newBlockTime 0 s.shuffled
  (if !s.proposer.active then updates ++ [{ s.proposer with active := true }] else updates,
   (s.shuffled.length - updates.length).toUInt64)

lemma length_pos : 0 < s.shuffled.length := List.length_pos_of_mem s.proposer_mem

lemma isScheduled_slot (hlen : s.shuffled.length < 2 ^ 64) {k j : ℕ} {u : UInt64}
    (hu : u.toNat = s.parentBlockTime.toNat + 10 * (k + 1) + 10 * j) (a : Address) :
    s.isScheduled u a ↔ s.shuffled[(k + j) % s.shuffled.length]? = some a := by
  have hslot : onSlot s.parentBlockTime u := by
    refine onSlot_iff.mpr ⟨by omega, ?_⟩
    have : u.toNat - s.parentBlockTime.toNat = 10 * (k + 1 + j) := by omega
    rw [this, Nat.mul_mod_right]
  have hsub : (u - s.parentBlockTime).toNat = 10 * (k + 1 + j) := by
    rw [Word.toNat_sub_of_toNat_le (by omega)]
    omega
  have hindex : ((u - s.parentBlockTime - BlockInterval) / BlockInterval %
      s.shuffled.length.toUInt64).toNat = (k + j) % s.shuffled.length := by
    rw [UInt64.toNat_mod, UInt64.toNat_div,
      Word.toNat_sub_of_toNat_le (by rw [hsub, blockInterval_toNat]; omega), hsub,
      blockInterval_toNat, Word.natCast_toNat_of_lt hlen]
    congr 1
    omega
  simp only [isScheduled, hslot, hindex, Bool.true_and, beq_iff_eq]

lemma isTheTime_onSlot {u : UInt64} (h : s.isTheTime u) : onSlot s.parentBlockTime u := by
  simp only [isTheTime, isScheduled, Bool.and_eq_true] at h
  exact h.1

lemma isProposerAt_iff (hlen : s.shuffled.length < 2 ^ 64) {offset : UInt64} {i : ℕ}
    (hi : i + offset.toNat < 2 ^ 64) :
    s.isProposerAt offset i ↔
      s.shuffled[(offset.toNat + i) % s.shuffled.length]? = some s.proposer.address := by
  have hi' : i < 2 ^ 64 := by omega
  rw [isProposerAt, beq_iff_eq, UInt64.toNat_mod,
    Word.toNat_add_of_lt (by rw [Word.natCast_toNat_of_lt hi']; exact hi),
    Word.natCast_toNat_of_lt hi', Word.natCast_toNat_of_lt hlen, Nat.add_comm i]

/-- `Schedule` returns, without reaching its `panic`, the first of the proposer's slots at or
after `nowTime`, as long as the slots of one turn through the list stay below `2 ^ 64`. -/
theorem schedule_scheduled {nowTime : UInt64}
    (hp : s.parentBlockTime.toNat + 10 * (s.shuffled.length + 1) < 2 ^ 64)
    (hn : nowTime.toNat + 10 * s.shuffled.length < 2 ^ 64) :
    ∃ t, s.schedule nowTime = some t ∧ Scheduled s.isTheTime s.parentBlockTime nowTime t := by
  have hpos := s.length_pos
  have hp10 : s.parentBlockTime.toNat + 10 < 2 ^ 64 := by omega
  have hn10 : nowTime.toNat + 10 ≤ 2 ^ 64 := by omega
  have hlen : s.shuffled.length < 2 ^ 64 := by omega
  -- the first slot is the `k + 1`-th after the parent, so the loop's offset is `k`
  obtain ⟨k, hk⟩ := Grid.exists_firstAfter_eq 10 s.parentBlockTime.toNat nowTime.toNat
  have hstart := (firstSlot_toNat hp10 hn10).trans hk
  have hmax : Grid.firstAfter 10 s.parentBlockTime.toNat nowTime.toNat ≤
      max (nowTime.toNat + 10 - 1) (s.parentBlockTime.toNat + 10) :=
    Grid.firstAfter_le_max (by norm_num)
  have hoffset : ((firstSlot s.parentBlockTime nowTime - s.parentBlockTime) / BlockInterval -
      1).toNat = k := by
    have hsub : (firstSlot s.parentBlockTime nowTime - s.parentBlockTime).toNat = 10 * (k + 1) :=
      by rw [Word.toNat_sub_of_toNat_le (by omega), hstart]; omega
    rw [Word.toNat_sub_of_toNat_le, UInt64.toNat_div, hsub, blockInterval_toNat] <;>
      simp only [UInt64.toNat_div, hsub, blockInterval_toNat, UInt64.toNat_one] <;> omega
  have hturn : ∀ i < s.shuffled.length,
      s.isProposerAt ((firstSlot s.parentBlockTime nowTime - s.parentBlockTime) / BlockInterval -
        1) i ↔ s.shuffled[(k + i) % s.shuffled.length]? = some s.proposer.address := by
    intro i hi
    rw [s.isProposerAt_iff hlen (by rw [hoffset]; omega), hoffset]
  -- the slot `i` places after the first is the proposer's exactly when the loop stops at `i`
  have hslot : ∀ i < s.shuffled.length, ∀ u : UInt64,
      u.toNat = (firstSlot s.parentBlockTime nowTime).toNat + 10 * i →
      (s.isTheTime u ↔ s.shuffled[(k + i) % s.shuffled.length]? = some s.proposer.address) := by
    intro i _ u hu
    exact s.isScheduled_slot hlen (by rw [hu, hstart]) _
  obtain ⟨i, hfind⟩ : ∃ i, (List.range s.shuffled.length).find? (s.isProposerAt
      ((firstSlot s.parentBlockTime nowTime - s.parentBlockTime) / BlockInterval - 1)) = some i := by
    obtain ⟨j, hget⟩ := List.mem_iff_getElem?.mp s.proposer_mem
    obtain ⟨i₀, hi₀, hrot⟩ := Grid.exists_add_mod_eq k (List.getElem?_eq_some_iff.mp hget).1
    refine Option.ne_none_iff_exists'.mp fun hnone => ?_
    have := List.find?_range_eq_none.mp hnone i₀ hi₀
    rw [Bool.not_eq_true', ← Bool.not_eq_true, (hturn i₀ hi₀), hrot] at this
    exact this hget
  obtain ⟨hyes, hi, hfirst⟩ := List.find?_range_eq_some.mp hfind
  rw [List.mem_range] at hi
  have ht : (firstSlot s.parentBlockTime nowTime + i.toUInt64 * BlockInterval).toNat =
      (firstSlot s.parentBlockTime nowTime).toNat + 10 * i := by
    have hi' : i < 2 ^ 64 := by omega
    have hmul : (i.toUInt64 * BlockInterval).toNat = 10 * i := by
      rw [Word.toNat_mul_of_lt] <;> rw [Word.natCast_toNat_of_lt hi', blockInterval_toNat] <;>
        omega
    -- the last slot of one turn stays below `2 ^ 64`
    have hlast : (firstSlot s.parentBlockTime nowTime).toNat + 10 * i < 2 ^ 64 := by
      rcases le_max_iff.mp hmax with h | h <;> omega
    rw [Word.toNat_add_of_lt (by rw [hmul]; exact hlast), hmul]
  refine ⟨_, by simp only [schedule, hfind, Option.map_some], scheduled_of_first hp10 hn10
    (fun u hu => s.isTheTime_onSlot hu) ht ?_ ?_⟩
  · exact (hslot i hi _ ht).mpr ((hturn i hi).mp hyes)
  · intro j hj u hu hu'
    have := hfirst j hj
    rw [Bool.not_eq_true', ← Bool.not_eq_true, hturn j (by omega)] at this
    exact this ((hslot j (by omega) u hu).mp hu')

lemma isScheduled_unique {blockTime : UInt64} {a b : Address} (ha : s.isScheduled blockTime a)
    (hb : s.isScheduled blockTime b) : a = b := by
  simp only [isScheduled, Bool.and_eq_true, beq_iff_eq] at ha hb
  exact Option.some_injective _ (ha.2.symm.trans hb.2)

lemma deactivated_mem (newBlockTime : UInt64) :
    ∀ (i : ℕ) (l : List Address), ∀ u ∈ s.deactivated newBlockTime i l, u.address ∈ l
  | _, [] => by simp [deactivated]
  | i, a :: rest => by
    intro u hu
    rw [deactivated] at hu
    split_ifs at hu with hstop hne
    · simp at hu
    · rcases List.mem_append.mp hu with hu | hu
      · rw [List.mem_singleton.mp hu]
        exact List.mem_cons_self
      · exact List.mem_cons_of_mem a (deactivated_mem newBlockTime (i + 1) rest u hu)
    · exact List.mem_cons_of_mem a (deactivated_mem newBlockTime (i + 1) rest u
        (by simpa using hu))

lemma updates_address_mem (newBlockTime : UInt64) :
    ∀ u ∈ (s.updates newBlockTime).1, u.address ∈ s.shuffled := by
  intro u hu
  simp only [updates] at hu
  split_ifs at hu
  · rcases List.mem_append.mp hu with hu | hu
    · exact s.deactivated_mem newBlockTime 0 _ u hu
    · rw [List.mem_singleton.mp hu]
      exact s.proposer_mem
  · exact s.deactivated_mem newBlockTime 0 _ u hu

end SchedulerV2

lemma newSchedulerV2_ok {addr : Address} {proposers : List Proposer} {parentBlockNumber : UInt32}
    {parentBlockTime : UInt64} {seed : List UInt8} {s : SchedulerV2}
    (h : newSchedulerV2 addr proposers parentBlockNumber parentBlockTime seed = .ok s) :
    s.parentBlockTime = parentBlockTime ∧ s.shuffled.length ≤ proposers.length ∧
      ∀ a ∈ s.shuffled, a ∈ proposers.map Proposer.address := by
  unfold newSchedulerV2 at h
  split at h
  · cases h
  · cases h
    refine ⟨rfl, ?_, fun a ha => ?_⟩
    · simp only [length_shuffle, hashed, List.length_map, activesOf]
      exact List.length_filter_le _ _
    · rw [mem_shuffle, hashed, List.map_map] at ha
      obtain ⟨p, hp, rfl⟩ := List.mem_map.mp ha
      exact List.mem_map_of_mem (List.mem_of_mem_filter hp)

lemma newSchedulerV1_ok {addr : Address} {proposers : List Proposer} {parentBlockNumber : UInt32}
    {parentBlockTime : UInt64} {s : SchedulerV1}
    (h : newSchedulerV1 addr proposers parentBlockNumber parentBlockTime = .ok s) :
    s.parentBlockTime = parentBlockTime ∧ ∀ p ∈ s.actives, p ∈ proposers := by
  unfold newSchedulerV1 at h
  split at h
  · cases h
  · cases h
    exact ⟨rfl, fun p hp => List.mem_of_mem_filter hp⟩

/-- The schedule both constructors build, while `parentBlockTime + (len + 1) * T` and
`nowTime + len * T` stay below `2 ^ 64`: the second scheduler returns the proposer's first
slot from `nowTime` on and gives each slot at most one proposer; the first returns such a slot
on every run whose slots stay below `2 ^ 64`. -/
theorem newScheduler_schedule_correct (addr : Address) (proposers : List Proposer)
    (parentBlockNumber : UInt32) (parentBlockTime nowTime : UInt64) (seed : List UInt8)
    (hp : parentBlockTime.toNat + (proposers.length + 1) * 10 < 2 ^ 64)
    (hn : nowTime.toNat + proposers.length * 10 < 2 ^ 64) :
    (∀ s, newSchedulerV2 addr proposers parentBlockNumber parentBlockTime seed = .ok s →
      (∃ t, s.schedule nowTime = some t ∧ Scheduled s.isTheTime parentBlockTime nowTime t) ∧
      ∀ blockTime a b, s.isScheduled blockTime a → s.isScheduled blockTime b → a = b) ∧
    (∀ s, newSchedulerV1 addr proposers parentBlockNumber parentBlockTime = .ok s →
      ∀ fuel t, s.schedule fuel nowTime = some t →
        (firstSlot parentBlockTime nowTime).toNat + 10 * fuel < 2 ^ 64 →
        Scheduled s.isTheTime parentBlockTime nowTime t) := by
  refine ⟨fun s hs => ?_, fun s hs fuel t ht hw => ?_⟩
  · obtain ⟨rfl, hlen, -⟩ := newSchedulerV2_ok hs
    refine ⟨s.schedule_scheduled (by omega) (by omega), fun _ _ _ => s.isScheduled_unique⟩
  · obtain ⟨rfl, hmem⟩ := newSchedulerV1_ok hs
    have hlen : 1 ≤ proposers.length := List.length_pos_of_mem (hmem _ s.proposer_mem)
    exact s.schedule_scheduled (by omega) (by omega) ht hw

/-- Of the four worked proposers, the fourth is given the slot at 1040 by the second scheduler
(seed 0x2A, parent 7 at 1000) and the slot at 1060 by the first. -/
theorem newScheduler_schedule_correct_four :
    (1000 : UInt64).toNat + (sampleProposers.length + 1) * 10 < 2 ^ 64 ∧
    (1025 : UInt64).toNat + sampleProposers.length * 10 < 2 ^ 64 ∧
    (∃ s, newSchedulerV2 (sampleAddress 4) sampleProposers 7 1000 [0x2A] = .ok s ∧
      s.schedule 1025 = some 1040 ∧ Scheduled s.isTheTime 1000 1025 1040 ∧
      ∀ a b, s.isScheduled 1040 a → s.isScheduled 1040 b → a = b) ∧
    (∃ s, newSchedulerV1 (sampleAddress 4) sampleProposers 7 1000 = .ok s ∧
      s.schedule 8 1025 = some 1060 ∧ Scheduled s.isTheTime 1000 1025 1060) := by
  obtain ⟨h₂, h₁⟩ := newScheduler_schedule_correct (sampleAddress 4) sampleProposers 7 1000 1025
    [0x2A] (by decide) (by decide)
  obtain ⟨s₂, hprop, hparent, hshuffled, hs₂⟩ : ∃ s : SchedulerV2,
      s.proposer = ⟨sampleAddress 4, true⟩ ∧ s.parentBlockTime = 1000 ∧
      s.shuffled = shuffle (hashed (sampleAddress 4) sampleProposers 7 [0x2A]) ∧
      newSchedulerV2 (sampleAddress 4) sampleProposers 7 1000 [0x2A] = .ok s :=
    ⟨_, rfl, rfl, rfl, rfl⟩
  rw [shuffle_eq_insertionSort (by decide +kernel)] at hshuffled
  have ht₂ : s₂.schedule 1025 = some 1040 := by
    unfold SchedulerV2.schedule SchedulerV2.isProposerAt
    rw [hshuffled, hprop, hparent]
    decide +kernel
  obtain ⟨⟨t, ht, hsched⟩, huniq⟩ := h₂ s₂ hs₂
  obtain rfl : t = 1040 := Option.some.inj (ht.symm.trans ht₂)
  obtain ⟨s₁, hs₁⟩ : ∃ s, newSchedulerV1 (sampleAddress 4) sampleProposers 7 1000 = .ok s :=
    ⟨_, rfl⟩
  have ht₁ : s₁.schedule 8 1025 = some 1060 := by
    cases hs₁
    decide +kernel
  exact ⟨by decide, by decide, ⟨s₂, hs₂, ht₂, hsched, huniq 1040⟩,
    ⟨s₁, hs₁, ht₁, h₁ s₁ hs₁ 8 1060 ht₁ (by decide)⟩⟩

end AuthorityBlock.Poa
