import Mathlib

/-! The model of `logdb.sequence` (`logdb/sequence.go`): a block number and a log index packed
into one `int64`, the key every log row is stored and filtered by (`logdb/logdb.go`). -/

namespace AuthorityBlock.Logdb

def MaxInt32 : UInt32 := 0x7FFFFFFF

/-- `newSequence`; an index that does not fit in 31 bits makes Go panic. -/
def newSequence (blockNum index : UInt32) : Option Int64 :=
  if index &&& MaxInt32 ≠ index then none
  else some ((blockNum.toUInt64.toInt64 <<< 31) ||| index.toUInt64.toInt64)

def blockNumber (s : Int64) : UInt32 := (s >>> 31).toUInt64.toUInt32

def index (s : Int64) : UInt32 := (s &&& 0x7FFFFFFF).toUInt64.toUInt32

lemma and_maxInt32_eq_iff (i : UInt32) : i &&& MaxInt32 = i ↔ i.toNat < 2 ^ 31 := by
  have hand : (i &&& MaxInt32).toNat = i.toNat % 2 ^ 31 := by
    rw [UInt32.toNat_and, show MaxInt32.toNat = 2 ^ 31 - 1 by rfl, Nat.and_two_pow_sub_one_eq_mod]
  rw [← UInt32.toNat_inj, hand]
  constructor
  · intro h
    rw [← h]
    exact Nat.mod_lt _ (Nat.two_pow_pos 31)
  · exact Nat.mod_eq_of_lt

lemma toNat_newSequence {b i : UInt32} (hi : i.toNat < 2 ^ 31) {s : Int64}
    (hs : newSequence b i = some s) : s.toBitVec.toNat = b.toNat * 2 ^ 31 + i.toNat := by
  rw [newSequence, if_neg (not_not.mpr ((and_maxInt32_eq_iff i).mpr hi)), Option.some.injEq] at hs
  subst hs
  have hb := b.toNat_lt
  have hshift : ((31 : Int64).toBitVec.smod 64).toNat = 31 := by decide
  rw [Int64.toBitVec_or, Int64.toBitVec_shiftLeft, BitVec.toNat_or, BitVec.shiftLeft_eq',
    BitVec.toNat_shiftLeft, hshift, UInt64.toBitVec_toInt64, UInt64.toBitVec_toInt64,
    UInt32.toBitVec_toUInt64, UInt32.toBitVec_toUInt64, BitVec.toNat_setWidth, BitVec.toNat_setWidth,
    UInt32.toNat_toBitVec, UInt32.toNat_toBitVec, Nat.mod_eq_of_lt (by omega : b.toNat < 2 ^ 64),
    Nat.mod_eq_of_lt (by omega : i.toNat < 2 ^ 64), Nat.mod_eq_of_lt (by rw [Nat.shiftLeft_eq]; omega),
    ← Nat.shiftLeft_add_eq_or_of_lt hi, Nat.shiftLeft_eq]

lemma newSequence_eq_none {b i : UInt32} (hi : 2 ^ 31 ≤ i.toNat) : newSequence b i = none := by
  rw [newSequence, if_pos]
  rw [Ne, and_maxInt32_eq_iff]
  omega

lemma exists_newSequence (b : UInt32) {i : UInt32} (hi : i.toNat < 2 ^ 31) :
    ∃ s, newSequence b i = some s := by
  rw [newSequence, if_neg (not_not.mpr ((and_maxInt32_eq_iff i).mpr hi))]
  exact ⟨_, rfl⟩

section Packed

variable {b i : UInt32} {s : Int64} (hi : i.toNat < 2 ^ 31) (hs : newSequence b i = some s)
include hi hs

lemma toNat_lt_of_newSequence : 2 * s.toBitVec.toNat < 2 ^ 64 := by
  have hb := b.toNat_lt
  rw [toNat_newSequence hi hs]
  omega

lemma toInt_newSequence : s.toInt = b.toNat * 2 ^ 31 + i.toNat := by
  rw [← Int64.toInt_toBitVec, BitVec.toInt_eq_toNat_of_lt (toNat_lt_of_newSequence hi hs),
    toNat_newSequence hi hs]
  omega

lemma blockNumber_newSequence : blockNumber s = b := by
  have hmsb : s.toBitVec.msb = false :=
    BitVec.msb_eq_false_iff_two_mul_lt.mpr (toNat_lt_of_newSequence hi hs)
  have hshift : ((31 : Int64).toBitVec.smod 64).toNat = 31 := by decide
  apply UInt32.toNat_inj.mp
  rw [blockNumber, UInt64.toNat_toUInt32, UInt64.toNat, Int64.toBitVec_toUInt64,
    Int64.toBitVec_shiftRight, BitVec.sshiftRight', hshift, BitVec.sshiftRight_eq_of_msb_false hmsb,
    BitVec.toNat_ushiftRight, toNat_newSequence hi hs, Nat.shiftRight_eq_div_pow]
  have := b.toNat_lt
  omega

lemma index_newSequence : index s = i := by
  apply UInt32.toNat_inj.mp
  rw [index, UInt64.toNat_toUInt32, UInt64.toNat, Int64.toBitVec_toUInt64, Int64.toBitVec_and,
    BitVec.toNat_and, toNat_newSequence hi hs]
  rw [show (0x7FFFFFFF : Int64).toBitVec.toNat = 2 ^ 31 - 1 by rfl, Nat.and_two_pow_sub_one_eq_mod]
  omega

end Packed

lemma newSequence_lt_iff {b₁ i₁ b₂ i₂ : UInt32} {s₁ s₂ : Int64} (hi₁ : i₁.toNat < 2 ^ 31)
    (hi₂ : i₂.toNat < 2 ^ 31) (hs₁ : newSequence b₁ i₁ = some s₁)
    (hs₂ : newSequence b₂ i₂ = some s₂) : s₁ < s₂ ↔ b₁ < b₂ ∨ b₁ = b₂ ∧ i₁ < i₂ := by
  rw [Int64.lt_iff_toInt_lt, toInt_newSequence hi₁ hs₁, toInt_newSequence hi₂ hs₂,
    UInt32.lt_iff_toNat_lt, UInt32.lt_iff_toNat_lt, ← UInt32.toNat_inj]
  omega

lemma newSequence_le_iff {b₁ i₁ b₂ i₂ : UInt32} {s₁ s₂ : Int64} (hi₁ : i₁.toNat < 2 ^ 31)
    (hi₂ : i₂.toNat < 2 ^ 31) (hs₁ : newSequence b₁ i₁ = some s₁)
    (hs₂ : newSequence b₂ i₂ = some s₂) : s₁ ≤ s₂ ↔ b₁ < b₂ ∨ b₁ = b₂ ∧ i₁ ≤ i₂ := by
  rw [Int64.le_iff_toInt_le, toInt_newSequence hi₁ hs₁, toInt_newSequence hi₂ hs₂,
    UInt32.lt_iff_toNat_lt, UInt32.le_iff_toNat_le, ← UInt32.toNat_inj]
  omega

/-! ## Range filters and truncation -/

structure Range where
  From : UInt32
  To : UInt32

/-- The condition `FilterEvents` and `FilterTransfers` put on `seq` for a range: at or after the
first sequence of `From`, and at or before the last one of `To` only when `To >= From`. -/
def rangeFilter (r : Range) : Option (Int64 → Bool) := do
  let lo ← newSequence r.From 0
  if r.To ≥ r.From then
    let hi ← newSequence r.To MaxInt32
    pure fun seq => decide (lo ≤ seq) && decide (seq ≤ hi)
  else pure fun seq => decide (lo ≤ seq)

/-- The condition under which `Writer.Truncate` deletes a row. -/
def truncateFilter (blockNum : UInt32) : Option (Int64 → Bool) := do
  let seq ← newSequence blockNum 0
  pure fun s => decide (seq ≤ s)

section Bounds

variable {a b i : UInt32} {bound s : Int64} (hi : i.toNat < 2 ^ 31) (hs : newSequence b i = some s)
include hi hs

lemma first_le_iff (hbound : newSequence a 0 = some bound) : bound ≤ s ↔ a ≤ b := by
  rw [newSequence_le_iff (by decide) hi hbound hs, UInt32.le_iff_toNat_le, UInt32.lt_iff_toNat_lt,
    UInt32.le_iff_toNat_le, ← UInt32.toNat_inj, UInt32.toNat_zero]
  omega

lemma le_last_iff (hbound : newSequence a MaxInt32 = some bound) : s ≤ bound ↔ b ≤ a := by
  rw [newSequence_le_iff hi (by decide) hs hbound, UInt32.le_iff_toNat_le, UInt32.lt_iff_toNat_lt,
    UInt32.le_iff_toNat_le, ← UInt32.toNat_inj]
  have : MaxInt32.toNat = 2 ^ 31 - 1 := rfl
  omega

end Bounds

lemma rangeFilter_spec (r : Range) :
    ∃ f, rangeFilter r = some f ∧ ∀ (b i : UInt32) (s : Int64), i.toNat < 2 ^ 31 →
      newSequence b i = some s → (f s = true ↔ r.From ≤ b ∧ (r.From ≤ r.To → b ≤ r.To)) := by
  obtain ⟨lo, hlo⟩ := exists_newSequence r.From (i := 0) (by decide)
  obtain ⟨hi, hhi⟩ := exists_newSequence r.To (i := MaxInt32) (by decide)
  by_cases hr : r.From ≤ r.To
  · refine ⟨fun seq => decide (lo ≤ seq) && decide (seq ≤ hi), ?_, ?_⟩
    · simp [rangeFilter, hlo, hhi, hr]
    · intro b i s hi' hs
      rw [Bool.and_eq_true, decide_eq_true_iff, decide_eq_true_iff, first_le_iff hi' hs hlo,
        le_last_iff hi' hs hhi]
      exact ⟨fun h => ⟨h.1, fun _ => h.2⟩, fun h => ⟨h.1, h.2 hr⟩⟩
  · refine ⟨fun seq => decide (lo ≤ seq), ?_, ?_⟩
    · simp [rangeFilter, hlo, hr]
    · intro b i s hi' hs
      rw [decide_eq_true_iff, first_le_iff hi' hs hlo]
      exact ⟨fun h => ⟨h, fun h' => absurd h' hr⟩, fun h => h.1⟩

lemma truncateFilter_spec (n : UInt32) :
    ∃ f, truncateFilter n = some f ∧ ∀ (b i : UInt32) (s : Int64), i.toNat < 2 ^ 31 →
      newSequence b i = some s → (f s = true ↔ n ≤ b) := by
  obtain ⟨lo, hlo⟩ := exists_newSequence n (i := 0) (by decide)
  refine ⟨fun s => decide (lo ≤ s), by simp [truncateFilter, hlo], ?_⟩
  intro b i s hi hs
  rw [decide_eq_true_iff, first_le_iff hi hs hlo]

/-- `newSequence` packs a block number and an index below `2^31` into a nonnegative `int64`
that reads both back, and orders them lexicographically; a range filter keeps the logs of
blocks from `From` on, up to `To` when `To >= From`, and truncation at `n` deletes exactly the
logs of blocks from `n` on. -/
theorem sequence_order_embedding :
    (∀ b i : UInt32, i.toNat < 2 ^ 31 → ∃ s, newSequence b i = some s ∧ blockNumber s = b ∧
      index s = i ∧ s.toInt = b.toNat * 2 ^ 31 + i.toNat ∧ 0 ≤ s.toInt) ∧
    (∀ b i : UInt32, 2 ^ 31 ≤ i.toNat → newSequence b i = none) ∧
    (∀ (b₁ i₁ b₂ i₂ : UInt32) (s₁ s₂ : Int64), i₁.toNat < 2 ^ 31 → i₂.toNat < 2 ^ 31 →
      newSequence b₁ i₁ = some s₁ → newSequence b₂ i₂ = some s₂ →
      (s₁ < s₂ ↔ b₁ < b₂ ∨ b₁ = b₂ ∧ i₁ < i₂)) ∧
    (∀ r : Range, ∃ f, rangeFilter r = some f ∧ ∀ (b i : UInt32) (s : Int64), i.toNat < 2 ^ 31 →
      newSequence b i = some s → (f s = true ↔ r.From ≤ b ∧ (r.From ≤ r.To → b ≤ r.To))) ∧
    (∀ n : UInt32, ∃ f, truncateFilter n = some f ∧ ∀ (b i : UInt32) (s : Int64),
      i.toNat < 2 ^ 31 → newSequence b i = some s → (f s = true ↔ n ≤ b)) := by
  refine ⟨?_, fun _ _ => newSequence_eq_none, fun _ _ _ _ _ _ => newSequence_lt_iff,
    rangeFilter_spec, truncateFilter_spec⟩
  intro b i hi
  obtain ⟨s, hs⟩ := exists_newSequence b hi
  have hint := toInt_newSequence hi hs
  exact ⟨s, hs, blockNumber_newSequence hi hs, index_newSequence hi hs, hint, by omega⟩

theorem sequence_order_embedding_extreme :
    (0x7FFFFFFF : UInt32).toNat < 2 ^ 31 ∧
      (∃ s, newSequence 0xFFFFFFFF 0x7FFFFFFF = some s ∧ blockNumber s = 0xFFFFFFFF ∧
        index s = 0x7FFFFFFF ∧ s.toInt = (0xFFFFFFFF : UInt32).toNat * 2 ^ 31 +
          (0x7FFFFFFF : UInt32).toNat ∧ 0 ≤ s.toInt) ∧
      2 ^ 31 ≤ (0x80000000 : UInt32).toNat ∧ newSequence 0xFFFFFFFF 0x80000000 = none :=
  ⟨by decide, sequence_order_embedding.1 _ _ (by decide), by decide,
    sequence_order_embedding.2.1 _ _ (by decide)⟩

/-- A range with `To < From`, which `ConvertRange` builds for a time window holding no block,
keeps the logs of every block from `From` on. -/
theorem rangeFilter_reversed_keeps_later :
    ∃ f s, rangeFilter ⟨1, 0⟩ = some f ∧ newSequence 2 0 = some s ∧ f s = true ∧
      ¬ ((1 : UInt32) ≤ 2 ∧ (2 : UInt32) ≤ 0) :=
  ⟨_, _, rfl, rfl, by decide, by decide⟩

end AuthorityBlock.Logdb
