import AuthorityBlock.Ablock.Types
import AuthorityBlock.Lib.BitArray
import Mathlib

/-! The variable-length bloom filter of `ablock/bloom/bloom.go`. `distribute` hands its callback
`k` probes by double hashing. `Generate` sets every probe of every distinct hash added, and
`Contains` tests a key's probes. Both work at the bit length `uint32(8 * nBytes)`, and each
probe's byte lies in the array. So when that length is not zero, every added key is contained
(`generate_contains`); when it wraps to zero, `hash % nBits` divides by zero. -/

namespace AuthorityBlock.Bloom

open BitArray ByteOrder

variable {σ : Type}

/-- The loop of `distribute`; `none` is Go's panic on `hash % 0`. -/
def distributeLoop (nBits delta : UInt32) (cb : σ → ℕ → UInt8 → σ × Bool) :
    ℕ → UInt32 → σ → Option (σ × Bool)
  | 0, _, s => some (s, true)
  | i + 1, hash, s =>
    if nBits = 0 then none
    else
      let bitPos := hash % nBits
      match cb s (bitPos / 8).toNat ((1 : UInt8) <<< (bitPos % 8).toUInt8) with
      | (t, false) => some (t, false)
      | (t, true) => distributeLoop nBits delta cb i (hash + delta) t

/-- `distribute`; the step is the hash rotated right by 17 bits. -/
def distribute (hash : UInt32) (k : UInt8) (nBits : UInt32) (cb : σ → ℕ → UInt8 → σ × Bool)
    (s : σ) : Option (σ × Bool) :=
  distributeLoop nBits ((hash >>> 17) ||| (hash <<< 15)) cb k.toNat hash s

def hash (key : List UInt8) : UInt32 := uint32BE (Blake2b [key]).bytes

structure Filter where
  Bits : List UInt8
  K : UInt8

def Filter.Contains (f : Filter) (key : List UInt8) : Option Bool :=
  (distribute (hash key) f.K (f.Bits.length * 8).toUInt32
    (fun bits index bit => (bits, hasBit bits index bit)) f.Bits).map Prod.snd

/-- `Generator`: the set of hashes added, a `map[uint32]bool`, in which a nil map is the empty
one. Go's `range` order over it is unspecified; here it is the list's, and the results below
hold for every list. -/
structure Generator where
  hashes : List UInt32
  nodup : hashes.Nodup

def Generator.empty : Generator := ⟨[], List.nodup_nil⟩

def Generator.Add (g : Generator) (key : List UInt8) : Generator :=
  ⟨g.hashes.insert (hash key), List.Nodup.insert g.nodup⟩

/-- The byte length `Generate` picks for `n` hashes, in Go's `int`. -/
def nBytesOf (n : ℕ) (bitsPerKey : Int64) : Int64 :=
  let nBytes := (Int64.ofNat n * bitsPerKey + 7) / 8
  if nBytes < 8 then 8 else nBytes

/-- The bit length `uint32(nBytes * 8)`. -/
def nBitsOf (n : ℕ) (bitsPerKey : Int64) : UInt32 := (nBytesOf n bitsPerKey * 8).toUInt64.toUInt32

/-- `Generate`: the filter, and the generator reset to empty. -/
def Generator.Generate (g : Generator) (bitsPerKey : Int64) (k : UInt8) :
    Option (Filter × Generator) :=
  let nBytes := nBytesOf g.hashes.length bitsPerKey
  let nBits := nBitsOf g.hashes.length bitsPerKey
  let set := fun bits index bit => (setBit bits index bit, true)
  (g.hashes.foldlM (fun bits hash => (distribute hash k nBits set bits).map Prod.fst)
      (List.replicate nBytes.toNatClampNeg 0)).map fun bits => (⟨bits, k⟩, Generator.empty)

/-! ### The probes -/

/-- The probes `distribute` makes when it does not panic. -/
def probesLoop (nBits delta : UInt32) : ℕ → UInt32 → List (ℕ × UInt8)
  | 0, _ => []
  | i + 1, hash =>
    let bitPos := hash % nBits
    ((bitPos / 8).toNat, (1 : UInt8) <<< (bitPos % 8).toUInt8) ::
      probesLoop nBits delta i (hash + delta)

def probes (hash : UInt32) (k : UInt8) (nBits : UInt32) : List (ℕ × UInt8) :=
  probesLoop nBits ((hash >>> 17) ||| (hash <<< 15)) k.toNat hash

lemma distributeLoop_eq {nBits : UInt32} (h : nBits ≠ 0) (delta : UInt32)
    (cb : σ → ℕ → UInt8 → σ × Bool) :
    ∀ (k : ℕ) (hash : UInt32) (s : σ),
      distributeLoop nBits delta cb k hash s = some (runProbes cb (probesLoop nBits delta k hash) s)
  | 0, _, _ => rfl
  | k + 1, hash, s => by
    simp only [distributeLoop, if_neg h, probesLoop, runProbes]
    rcases cb s ((hash % nBits) / 8).toNat ((1 : UInt8) <<< ((hash % nBits) % 8).toUInt8) with
      ⟨t, _ | _⟩
    · rfl
    · exact distributeLoop_eq h delta cb k (hash + delta) t

lemma distribute_eq {nBits : UInt32} (h : nBits ≠ 0) (hash : UInt32) (k : UInt8)
    (cb : σ → ℕ → UInt8 → σ × Bool) (s : σ) :
    distribute hash k nBits cb s = some (runProbes cb (probes hash k nBits) s) :=
  distributeLoop_eq h _ cb _ _ _

lemma index_lt_of_mem_probesLoop {nBits : UInt32} (h : nBits ≠ 0) {len : ℕ}
    (hlen : nBits.toNat ≤ 8 * len) (delta : UInt32) :
    ∀ (k : ℕ) (hash : UInt32), ∀ p ∈ probesLoop nBits delta k hash, p.1 < len
  | 0, _ => fun _ hp => by cases hp
  | k + 1, hash => by
    intro p hp
    rcases List.mem_cons.mp hp with rfl | hp
    · have hpos : 0 < nBits.toNat :=
        Nat.pos_of_ne_zero (fun h0 => h (UInt32.toNat_inj.mp (by rw [h0]; rfl)))
      have hmod : (hash % nBits).toNat < nBits.toNat := by
        rw [UInt32.toNat_mod]
        exact Nat.mod_lt _ hpos
      change ((hash % nBits) / 8).toNat < len
      rw [UInt32.toNat_div]
      change (hash % nBits).toNat / 8 < len
      omega
    · exact index_lt_of_mem_probesLoop h hlen delta k (hash + delta) p hp

lemma index_lt_of_mem_probes {nBits : UInt32} (h : nBits ≠ 0) {len : ℕ}
    (hlen : nBits.toNat ≤ 8 * len) (hash : UInt32) (k : UInt8) :
    ∀ p ∈ probes hash k nBits, p.1 < len :=
  index_lt_of_mem_probesLoop h hlen _ _ _

/-! ### The filter -/

lemma Filter.contains_eq (f : Filter) (key : List UInt8) (h : (f.Bits.length * 8).toUInt32 ≠ 0) :
    f.Contains key =
      some ((probes (hash key) f.K (f.Bits.length * 8).toUInt32).all fun p => hasBit f.Bits p.1 p.2) := by
  rw [Filter.Contains, distribute_eq h, runProbes_test]
  rfl

lemma le_nBytesOf (n : ℕ) (bitsPerKey : Int64) : 8 ≤ nBytesOf n bitsPerKey := by
  dsimp only [nBytesOf]
  split_ifs with h
  · exact Int64.le_refl _
  · exact Int64.not_lt.mp h

lemma toUInt32_length_mul (n : ℕ) (bitsPerKey : Int64) :
    ((nBytesOf n bitsPerKey).toNatClampNeg * 8).toUInt32 = nBitsOf n bitsPerKey := by
  have hnn : 0 ≤ nBytesOf n bitsPerKey :=
    Int64.le_trans (by decide) (le_nBytesOf n bitsPerKey)
  apply UInt32.toNat_inj.mp
  rw [nBitsOf, UInt64.toNat_toUInt32, Int64.toUInt64_mul, UInt64.toNat_mul,
    Int64.toNat_toUInt64_of_le hnn, Nat.toUInt32, UInt32.toNat_ofNat']
  change _ = (_ * 8 % 2 ^ 64) % 2 ^ 32
  rw [Nat.mod_mod_of_dvd _ (by decide)]

lemma nBitsOf_le (n : ℕ) (bitsPerKey : Int64) :
    (nBitsOf n bitsPerKey).toNat ≤ 8 * (nBytesOf n bitsPerKey).toNatClampNeg := by
  rw [← toUInt32_length_mul, Nat.toUInt32, UInt32.toNat_ofNat']
  omega

lemma toNatClampNeg_nBytesOf_lt {n : ℕ} {bitsPerKey : Int64} (hb : 1 ≤ bitsPerKey.toInt)
    (h : n * bitsPerKey.toInt + 7 < 2 ^ 32) : (nBytesOf n bitsPerKey).toNatClampNeg < 2 ^ 29 := by
  have hnb : (n : ℤ) * 1 ≤ n * bitsPerKey.toInt := Int.mul_le_mul_of_nonneg_left hb (Int.natCast_nonneg n)
  have h1 : (Int64.ofNat n).toInt = n := Int64.toInt_ofNat_of_lt (by omega)
  have h2 : (Int64.ofNat n * bitsPerKey + 7).toInt = n * bitsPerKey.toInt + 7 := by
    have hmul : ((n : ℤ) * bitsPerKey.toInt).bmod (2 ^ 64) = n * bitsPerKey.toInt :=
      Int.bmod_eq_of_le (by omega) (by omega)
    rw [Int64.toInt_add, Int64.toInt_mul, h1, hmul, show (7 : Int64).toInt = 7 from rfl]
    exact Int.bmod_eq_of_le (by omega) (by omega)
  have h3 : ((Int64.ofNat n * bitsPerKey + 7) / 8).toInt = (n * bitsPerKey.toInt + 7) / 8 := by
    rw [Int64.toInt_div, h2, Int.tdiv_eq_ediv_of_nonneg (by omega)]
    change ((n * bitsPerKey.toInt + 7) / 8).bmod _ = _
    exact Int.bmod_eq_of_le (by omega) (by omega)
  dsimp only [nBytesOf]
  split_ifs with hlt
  · decide
  · change (((Int64.ofNat n * bitsPerKey + 7) / 8).toInt).toNat < _
    rw [h3]
    omega

lemma nBitsOf_ne_zero {n : ℕ} {bitsPerKey : Int64} (hb : 1 ≤ bitsPerKey.toInt)
    (h : n * bitsPerKey.toInt + 7 < 2 ^ 32) : nBitsOf n bitsPerKey ≠ 0 := by
  have hlt := toNatClampNeg_nBytesOf_lt hb h
  have hle : 8 ≤ (nBytesOf n bitsPerKey).toNatClampNeg := by
    have := Int64.le_iff_toInt_le.mp (le_nBytesOf n bitsPerKey)
    change 8 ≤ (nBytesOf n bitsPerKey).toInt.toNat
    change (8 : ℤ) ≤ _ at this
    omega
  rw [← toUInt32_length_mul]
  intro h0
  have := congrArg UInt32.toNat h0
  rw [Nat.toUInt32, UInt32.toNat_ofNat'] at this
  change _ = 0 at this
  omega

lemma Generator.generate_eq (g : Generator) (bitsPerKey : Int64) (k : UInt8)
    (h : nBitsOf g.hashes.length bitsPerKey ≠ 0) :
    g.Generate bitsPerKey k =
      some (⟨g.hashes.foldl (fun bits hash => setAll bits (probes hash k (nBitsOf g.hashes.length bitsPerKey)))
        (List.replicate (nBytesOf g.hashes.length bitsPerKey).toNatClampNeg 0), k⟩, Generator.empty) := by
  have hstep : (fun bits hash => (distribute hash k (nBitsOf g.hashes.length bitsPerKey)
      (fun bits index bit => (setBit bits index bit, true)) bits).map Prod.fst) =
      fun (bits : List UInt8) hash =>
        pure (setAll bits (probes hash k (nBitsOf g.hashes.length bitsPerKey))) := by
    funext bits hash
    rw [distribute_eq h, runProbes_update]
    rfl
  simp only [Generator.Generate, hstep, List.foldlM_pure]
  rfl

/-- A generated filter contains every hash added, whenever its bit length is not zero. -/
theorem Generator.generate_contains (g : Generator) (bitsPerKey : Int64) (k : UInt8)
    (h : nBitsOf g.hashes.length bitsPerKey ≠ 0) :
    ∃ f, g.Generate bitsPerKey k = some (f, Generator.empty) ∧
      ∀ key, hash key ∈ g.hashes → f.Contains key = some true := by
  refine ⟨_, g.generate_eq bitsPerKey k h, fun key hkey => ?_⟩
  have hlen := toUInt32_length_mul g.hashes.length bitsPerKey
  rw [Filter.contains_eq _ _ (by simpa [hlen] using h)]
  simp only [length_foldl_setAll, List.length_replicate, hlen, Option.some.injEq, List.all_eq_true]
  intro p hp
  exact hasBit_foldl_setAll _ _ _
    (fun x _ => index_lt_of_mem_probes h (by simpa using nBitsOf_le g.hashes.length bitsPerKey) x k)
    _ hkey p hp

theorem generate_divides_by_zero :
    (Generator.empty.Add []).Generate 4294967296 1 = none := by
  have hbits : nBitsOf 1 4294967296 = 0 := by decide
  rw [Generator.Generate, show (Generator.empty.Add []).hashes = [hash []] from rfl]
  simp [hbits, distribute, distributeLoop]

lemma Generator.mem_hashes_add (g : Generator) (key key' : List UInt8) :
    hash key' ∈ (g.Add key).hashes ↔ hash key' = hash key ∨ hash key' ∈ g.hashes :=
  List.mem_insert_iff

lemma Generator.mem_hashes_foldl_add_of_mem :
    ∀ (keys : List (List UInt8)) (g : Generator) {x : UInt32}, x ∈ g.hashes →
      x ∈ (keys.foldl Generator.Add g).hashes
  | [], _, _, h => h
  | _ :: keys, _, _, h => Generator.mem_hashes_foldl_add_of_mem keys _ (List.mem_insert_of_mem h)

lemma Generator.mem_hashes_foldl_add (keys : List (List UInt8)) :
    ∀ (g : Generator) key, key ∈ keys → hash key ∈ (keys.foldl Generator.Add g).hashes := by
  induction keys with
  | nil => intro _ _ h; cases h
  | cons key' keys ih =>
    intro g key hkey
    rcases List.mem_cons.mp hkey with rfl | hkey
    · exact Generator.mem_hashes_foldl_add_of_mem keys _ ((g.mem_hashes_add key key).mpr (Or.inl rfl))
    · exact ih _ key hkey

end AuthorityBlock.Bloom
