import AuthorityBlock.Bloom.Filter

/-! The legacy bloom filter of `ablock/bloom/legacy.go`: 2048 bits, and `K` probes, the `i`-th
read from bytes `2i` and `2i + 1` of the item's BLAKE2b hash. `Add` sets every probe and `Test`
tests them, so from `NewLegacyBloom` every item added is found. A `K` above 16 would read past the
32 bytes of the hash, which `NewLegacyBloom` refuses. -/

namespace AuthorityBlock.Bloom

open BitArray

variable {σ : Type}

def legacyMaxK : ℤ := 16

def legacyBitsLength : ℕ := 2048

/-- `LegacyBloom`: the bits, a `[256]byte` array, and `K`. -/
structure LegacyBloom where
  Bits : List UInt8
  length_bits : Bits.length = legacyBitsLength / 8
  K : ℤ

/-- `NewLegacyBloom`; `none` is the panic on an invalid `K`. -/
def NewLegacyBloom (k : ℤ) : Option LegacyBloom :=
  if k > legacyMaxK ∨ k < 1 then none
  else some ⟨List.replicate (legacyBitsLength / 8) 0, List.length_replicate, k⟩

/-- The loop of `LegacyBloom.distribute` from round `i` with `n` rounds left; `none` is Go's
panic on reading past the end of the hash. -/
def legacyDistributeLoop (hash : List UInt8) (cb : σ → ℕ → UInt8 → σ × Bool) :
    ℕ → ℕ → σ → Option (σ × Bool)
  | _, 0, s => some (s, true)
  | i, n + 1, s =>
    match hash[i * 2 + 1]?, hash[i * 2]? with
    | some lo, some hi =>
      let d := (lo.toNat + (hi.toNat <<< 8)) % legacyBitsLength
      match cb s (d / 8) ((1 : UInt8) <<< (d % 8).toUInt8) with
      | (t, false) => some (t, false)
      | (t, true) => legacyDistributeLoop hash cb (i + 1) n t
    | _, _ => none

def LegacyBloom.distribute (b : LegacyBloom) (item : List UInt8) (cb : σ → ℕ → UInt8 → σ × Bool)
    (s : σ) : Option (σ × Bool) :=
  legacyDistributeLoop (Blake2b [item]).bytes cb 0 b.K.toNat s

/-- `b.Bits[index] |= bit`. -/
def LegacyBloom.setBit (b : LegacyBloom) (index : ℕ) (bit : UInt8) : LegacyBloom :=
  ⟨BitArray.setBit b.Bits index bit, by rw [length_setBit, b.length_bits], b.K⟩

def LegacyBloom.Add (b : LegacyBloom) (item : List UInt8) : Option LegacyBloom :=
  (b.distribute item (fun b index bit => (b.setBit index bit, true)) b).map Prod.fst

def LegacyBloom.Test (b : LegacyBloom) (item : List UInt8) : Option Bool :=
  (b.distribute item (fun b index bit => (b, hasBit b.Bits index bit)) b).map Prod.snd

/-! ### The probes -/

def legacyProbesLoop (hash : List UInt8) : ℕ → ℕ → List (ℕ × UInt8)
  | _, 0 => []
  | i, n + 1 =>
    let d := ((hash.getD (i * 2 + 1) 0).toNat + ((hash.getD (i * 2) 0).toNat <<< 8)) % legacyBitsLength
    (d / 8, (1 : UInt8) <<< (d % 8).toUInt8) :: legacyProbesLoop hash (i + 1) n

def legacyProbes (K : ℤ) (item : List UInt8) : List (ℕ × UInt8) :=
  legacyProbesLoop (Blake2b [item]).bytes 0 K.toNat

lemma legacyDistributeLoop_eq {hash : List UInt8} (hlen : hash.length = 32)
    (cb : σ → ℕ → UInt8 → σ × Bool) :
    ∀ (n i : ℕ) (s : σ), i + n ≤ 16 →
      legacyDistributeLoop hash cb i n s = some (runProbes cb (legacyProbesLoop hash i n) s)
  | 0, _, _, _ => rfl
  | n + 1, i, s, hin => by
    have hlo : i * 2 + 1 < hash.length := by omega
    have hhi : i * 2 < hash.length := by omega
    simp only [legacyDistributeLoop, legacyProbesLoop, List.getD_eq_getElem?_getD,
      List.getElem?_eq_getElem hlo, List.getElem?_eq_getElem hhi, Option.getD_some, runProbes]
    rcases cb s _ _ with ⟨t, _ | _⟩
    · rfl
    · exact legacyDistributeLoop_eq hlen cb n (i + 1) t (by omega)

lemma LegacyBloom.distribute_eq (b : LegacyBloom) (hK : b.K ≤ 16) (item : List UInt8)
    (cb : σ → ℕ → UInt8 → σ × Bool) (s : σ) :
    b.distribute item cb s = some (runProbes cb (legacyProbes b.K item) s) :=
  legacyDistributeLoop_eq (Blake2b [item]).length_eq cb _ _ _ (by omega)

lemma index_lt_of_mem_legacyProbesLoop (hash : List UInt8) :
    ∀ (n i : ℕ), ∀ p ∈ legacyProbesLoop hash i n, p.1 < legacyBitsLength / 8
  | 0, _ => fun _ hp => by cases hp
  | n + 1, i => by
    intro p hp
    rcases List.mem_cons.mp hp with rfl | hp
    · change _ % 2048 / 8 < 256
      omega
    · exact index_lt_of_mem_legacyProbesLoop hash n (i + 1) p hp

/-! ### Adding and testing -/

lemma LegacyBloom.foldl_setBit (ps : List (ℕ × UInt8)) :
    ∀ b : LegacyBloom, (ps.foldl (fun b p => b.setBit p.1 p.2) b).Bits = setAll b.Bits ps ∧
      (ps.foldl (fun b p => b.setBit p.1 p.2) b).K = b.K := by
  induction ps with
  | nil => intro b; exact ⟨rfl, rfl⟩
  | cons p ps ih => intro b; exact ih (b.setBit p.1 p.2)

lemma LegacyBloom.add_eq (b : LegacyBloom) (hK : b.K ≤ 16) (item : List UInt8) :
    ∃ b', b.Add item = some b' ∧ b'.Bits = setAll b.Bits (legacyProbes b.K item) ∧ b'.K = b.K := by
  refine ⟨_, ?_, LegacyBloom.foldl_setBit _ b⟩
  rw [LegacyBloom.Add, b.distribute_eq hK, runProbes_update]
  rfl

lemma LegacyBloom.test_eq (b : LegacyBloom) (hK : b.K ≤ 16) (item : List UInt8) :
    b.Test item = some ((legacyProbes b.K item).all fun p => hasBit b.Bits p.1 p.2) := by
  rw [LegacyBloom.Test, b.distribute_eq hK, runProbes_test]
  rfl

/-- The run lemma of `Add`: a sequence of adds succeeds, keeps `K` and sets each item's probes in
turn. -/
lemma LegacyBloom.foldlM_add (items : List (List UInt8)) :
    ∀ b : LegacyBloom, b.K ≤ 16 → ∃ b', items.foldlM LegacyBloom.Add b = some b' ∧ b'.K = b.K ∧
      b'.Bits = items.foldl (fun bits item => setAll bits (legacyProbes b.K item)) b.Bits := by
  induction items with
  | nil => intro b _; exact ⟨b, rfl, rfl, rfl⟩
  | cons item items ih =>
    intro b hK
    obtain ⟨b₁, hadd, hbits, hK₁⟩ := b.add_eq hK item
    obtain ⟨b', hrun, hK', hbits'⟩ := ih b₁ (hK₁ ▸ hK)
    refine ⟨b', ?_, hK'.trans hK₁, ?_⟩
    · rw [List.foldlM_cons, hadd]
      exact hrun
    · rw [hbits', hK₁, hbits]
      rfl

lemma LegacyBloom.test_of_foldlM_add (items : List (List UInt8)) (b : LegacyBloom) (hK : b.K ≤ 16) :
    ∃ b', items.foldlM LegacyBloom.Add b = some b' ∧ ∀ item ∈ items, b'.Test item = some true := by
  obtain ⟨b', hrun, hK', hbits⟩ := LegacyBloom.foldlM_add items b hK
  refine ⟨b', hrun, fun item hitem => ?_⟩
  rw [b'.test_eq (hK'.trans_le hK), hK', hbits, Option.some.injEq, List.all_eq_true]
  intro p hp
  apply hasBit_foldl_setAll _ items _ _ item hitem p hp
  intro x _ q hq
  rw [b.length_bits]
  exact index_lt_of_mem_legacyProbesLoop _ _ _ q hq

/-- Neither bloom filter has false negatives. A filter generated from the keys added to a
generator contains every one of them, whenever its bit length `uint32(8 * nBytes)` is not zero;
and a legacy bloom made with `1 ≤ k ≤ 16` tests positive for every item added. -/
theorem bloom_filters_no_false_negatives :
    (∀ (keys : List (List UInt8)) (bitsPerKey : Int64) (k : UInt8),
      nBitsOf (keys.foldl Generator.Add Generator.empty).hashes.length bitsPerKey ≠ 0 →
      ∃ f, (keys.foldl Generator.Add Generator.empty).Generate bitsPerKey k =
          some (f, Generator.empty) ∧ ∀ key ∈ keys, f.Contains key = some true) ∧
    (∀ (n : ℕ) (bitsPerKey : Int64), 1 ≤ bitsPerKey.toInt → n * bitsPerKey.toInt + 7 < 2 ^ 32 →
      nBitsOf n bitsPerKey ≠ 0) ∧
    (∀ k : ℤ, 1 ≤ k → k ≤ 16 → ∀ items : List (List UInt8), ∃ b,
      ((NewLegacyBloom k).bind fun b => items.foldlM LegacyBloom.Add b) = some b ∧
        ∀ item ∈ items, b.Test item = some true) := by
  refine ⟨?_, fun _ _ => nBitsOf_ne_zero, ?_⟩
  · intro keys bitsPerKey k h
    obtain ⟨f, hgen, hcontains⟩ := Generator.generate_contains _ bitsPerKey k h
    exact ⟨f, hgen, fun key hkey =>
      hcontains key (Generator.mem_hashes_foldl_add keys _ key hkey)⟩
  · intro k hk1 hk16 items
    have hnew : NewLegacyBloom k = some ⟨List.replicate (legacyBitsLength / 8) 0, List.length_replicate, k⟩ := by
      rw [NewLegacyBloom, if_neg (by unfold legacyMaxK; omega)]
    rw [hnew, Option.bind_some]
    exact LegacyBloom.test_of_foldlM_add items _ hk16

theorem bloom_filters_no_false_negatives_beat2 :
    (∃ f, ([[1]].foldl Generator.Add Generator.empty).Generate 20 13 = some (f, Generator.empty) ∧
      ∀ key ∈ [[(1 : UInt8)]], f.Contains key = some true) ∧
    nBitsOf 100000 20 ≠ 0 ∧
    ∃ b, ((NewLegacyBloom 16).bind fun b => [[(1 : UInt8)], [2]].foldlM LegacyBloom.Add b) = some b ∧
      ∀ item ∈ [[(1 : UInt8)], [2]], b.Test item = some true :=
  ⟨bloom_filters_no_false_negatives.1 [[1]] 20 13
      (by rw [show ([[(1 : UInt8)]].foldl Generator.Add Generator.empty).hashes.length = 1 from rfl]
          decide),
    bloom_filters_no_false_negatives.2.1 100000 20 (by decide) (by decide),
    bloom_filters_no_false_negatives.2.2 16 (by decide) (by decide) [[1], [2]]⟩

end AuthorityBlock.Bloom
