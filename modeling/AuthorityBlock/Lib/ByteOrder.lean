import Mathlib

/-! Fixed-width integers as byte strings, in the two byte orders of Go's `encoding/binary`, and
the order of `bytes.Compare`. -/

namespace ByteOrder

def putUint32BE (x : UInt32) : List UInt8 :=
  [(x >>> 24).toUInt8, (x >>> 16).toUInt8, (x >>> 8).toUInt8, x.toUInt8]

def putUint64BE (x : UInt64) : List UInt8 :=
  (List.range 8).reverse.map fun i => (x >>> (8 * i).toUInt64).toUInt8

/-- `Uint64` of the first eight bytes, most significant first. -/
def uint64BE (b : List UInt8) : UInt64 :=
  (b.take 8).foldl (fun acc x => (acc <<< 8) ||| x.toUInt64) 0

/-- `Uint32` of the first four bytes, most significant first. -/
def uint32BE (b : List UInt8) : UInt32 :=
  (b.take 4).foldl (fun acc x => (acc <<< 8) ||| x.toUInt32) 0

def putUint64LE (x : UInt64) : List UInt8 := (putUint64BE x).reverse

def uint64LE (b : List UInt8) : UInt64 := uint64BE (b.take 8).reverse

@[simp] lemma putUint32BE_length (x : UInt32) : (putUint32BE x).length = 4 := rfl

@[simp] lemma putUint64BE_length (x : UInt64) : (putUint64BE x).length = 8 := by
  simp [putUint64BE]

@[simp] lemma putUint64LE_length (x : UInt64) : (putUint64LE x).length = 8 := by
  simp [putUint64LE]

/-- `bytes.Compare`: the lexicographic order of byte strings. -/
def compareBytes : List UInt8 → List UInt8 → Ordering
  | [], [] => .eq
  | [], _ :: _ => .lt
  | _ :: _, [] => .gt
  | a :: as, b :: bs => if a < b then .lt else if b < a then .gt else compareBytes as bs

/-! ## Reading back a `uint32` -/

lemma lor_eq_add_of_dvd {x y k : ℕ} (hx : 2 ^ k ∣ x) (hy : y < 2 ^ k) : x ||| y = x + y := by
  obtain ⟨q, rfl⟩ := hx
  rw [show 2 ^ k * q = q <<< k by rw [Nat.shiftLeft_eq, Nat.mul_comm],
    ← Nat.shiftLeft_add_eq_or_of_lt hy]

lemma toNat_shiftLeft_or {acc : UInt32} (hacc : acc.toNat < 2 ^ 24) (b : UInt8) :
    ((acc <<< 8) ||| b.toUInt32).toNat = acc.toNat * 256 + b.toNat := by
  rw [UInt32.toNat_or, UInt32.toNat_shiftLeft, UInt8.toNat_toUInt32]
  have hb := b.toNat_lt
  simp only [show (8 : UInt32).toNat % 32 = 8 from rfl]
  rw [Nat.mod_eq_of_lt (by rw [Nat.shiftLeft_eq]; omega),
    ← Nat.shiftLeft_add_eq_or_of_lt (by simpa using hb), Nat.shiftLeft_eq]

lemma toNat_uint32BE (a b c d : UInt8) (rest : List UInt8) :
    (uint32BE (a :: b :: c :: d :: rest)).toNat =
      ((a.toNat * 256 + b.toNat) * 256 + c.toNat) * 256 + d.toNat := by
  have ha := a.toNat_lt
  have hb := b.toNat_lt
  have hc := c.toNat_lt
  -- the accumulator after each byte, from the first
  have h1 : ((0 : UInt32) <<< 8 ||| a.toUInt32).toNat = a.toNat := by
    rw [toNat_shiftLeft_or (by decide), UInt32.toNat_zero, Nat.zero_mul, Nat.zero_add]
  have h2 : (((0 : UInt32) <<< 8 ||| a.toUInt32) <<< 8 ||| b.toUInt32).toNat =
      a.toNat * 256 + b.toNat := by
    rw [toNat_shiftLeft_or (by omega), h1]
  have h3 : ((((0 : UInt32) <<< 8 ||| a.toUInt32) <<< 8 ||| b.toUInt32) <<< 8 |||
      c.toUInt32).toNat = (a.toNat * 256 + b.toNat) * 256 + c.toNat := by
    rw [toNat_shiftLeft_or (by omega), h2]
  simp only [uint32BE, List.take_succ_cons, List.take_zero, List.foldl_cons, List.foldl_nil]
  rw [toNat_shiftLeft_or (by omega), h3]

lemma toNat_putUint32BE_digits (x : UInt32) :
    ((((x >>> 24).toUInt8.toNat * 256 + (x >>> 16).toUInt8.toNat) * 256 +
      (x >>> 8).toUInt8.toNat) * 256 + x.toUInt8.toNat) = x.toNat := by
  have hx := x.toNat_lt
  simp only [UInt32.toNat_toUInt8, UInt32.toNat_shiftRight, Nat.shiftRight_eq_div_pow,
    show (24 : UInt32).toNat % 32 = 24 from rfl, show (16 : UInt32).toNat % 32 = 16 from rfl,
    show (8 : UInt32).toNat % 32 = 8 from rfl]
  omega

lemma uint32BE_putUint32BE (x : UInt32) (rest : List UInt8) :
    uint32BE (putUint32BE x ++ rest) = x := by
  apply UInt32.toNat_inj.mp
  rw [putUint32BE, List.cons_append, List.cons_append, List.cons_append, List.cons_append,
    toNat_uint32BE, toNat_putUint32BE_digits]

lemma putUint32BE_injective : Function.Injective putUint32BE := fun x y h => by
  rw [← uint32BE_putUint32BE x [], ← uint32BE_putUint32BE y [], h]

lemma putUint32BE_append_inj {x y : UInt32} {r r' : List UInt8}
    (h : putUint32BE x ++ r = putUint32BE y ++ r') : x = y ∧ r = r' := by
  obtain ⟨hxy, hr⟩ := List.append_inj h (by simp)
  exact ⟨putUint32BE_injective hxy, hr⟩

/-! ## The byte order -/

lemma compareBytes_append_left (a x y : List UInt8) :
    compareBytes (a ++ x) (a ++ y) = compareBytes x y := by
  induction a with
  | nil => rfl
  | cons b a ih => simp only [List.cons_append, compareBytes, UInt8.lt_irrefl, if_false, ih]

lemma compareBytes_append_of_ne {x y : List UInt8} (hlen : x.length = y.length)
    (hne : compareBytes x y ≠ .eq) (r r' : List UInt8) :
    compareBytes (x ++ r) (y ++ r') = compareBytes x y := by
  induction x generalizing y with
  | nil =>
    cases y with
    | nil => exact absurd rfl hne
    | cons => simp at hlen
  | cons a x ih =>
    cases y with
    | nil => simp at hlen
    | cons b y =>
      simp only [List.cons_append, compareBytes] at hne ⊢
      split_ifs with hab hba
      · rfl
      · rfl
      · rw [if_neg hab, if_neg hba] at hne
        exact ih (by simpa using hlen) hne

lemma compareBytes_append_right_self (x r : List UInt8) (hr : r ≠ []) :
    compareBytes (x ++ r) x = .gt := by
  induction x with
  | nil =>
    obtain ⟨b, r, rfl⟩ := List.exists_cons_of_ne_nil hr
    rfl
  | cons a x ih => simp only [List.cons_append, compareBytes, UInt8.lt_irrefl, if_false, ih]

/-- The number a big-endian byte string stands for. -/
def beValue : List UInt8 → ℕ
  | [] => 0
  | a :: as => a.toNat * 256 ^ as.length + beValue as

lemma beValue_lt : ∀ l : List UInt8, beValue l < 256 ^ l.length
  | [] => Nat.one_pos
  | a :: as => by
    have ha := a.toNat_lt
    have hmul : (a.toNat + 1) * 256 ^ as.length ≤ 256 * 256 ^ as.length :=
      Nat.mul_le_mul_right _ (by omega)
    rw [beValue, List.length_cons, Nat.pow_succ]
    have := beValue_lt as
    rw [Nat.add_mul, Nat.one_mul] at hmul
    omega

lemma compareBytes_eq_compare :
    ∀ {l l' : List UInt8}, l.length = l'.length →
      compareBytes l l' = compare (beValue l) (beValue l')
  | [], [], _ => rfl
  | a :: as, b :: bs, hlen => by
    have hlen' : as.length = bs.length := by simpa using hlen
    have hx := beValue_lt as
    have hy := beValue_lt bs
    rw [← hlen'] at hy
    simp only [compareBytes, beValue, ← hlen']
    split_ifs with hab hba
    · -- the leading digit of `b` is larger, whatever follows
      have hmul : (a.toNat + 1) * 256 ^ as.length ≤ b.toNat * 256 ^ as.length :=
        Nat.mul_le_mul_right _ (UInt8.lt_iff_toNat_lt.mp hab)
      rw [Nat.add_mul, Nat.one_mul] at hmul
      exact (Nat.compare_eq_lt.mpr (by omega)).symm
    · have hmul : (b.toNat + 1) * 256 ^ as.length ≤ a.toNat * 256 ^ as.length :=
        Nat.mul_le_mul_right _ (UInt8.lt_iff_toNat_lt.mp hba)
      rw [Nat.add_mul, Nat.one_mul] at hmul
      exact (Nat.compare_eq_gt.mpr (by omega)).symm
    · have hba' : a = b := UInt8.toNat_inj.mp (by
        rw [UInt8.lt_iff_toNat_lt] at hab hba
        omega)
      subst hba'
      rw [compareBytes_eq_compare hlen']
      simp only [compare, compareOfLessAndEq, Nat.add_lt_add_iff_left, Nat.add_left_cancel_iff]

lemma beValue_putUint32BE (x : UInt32) : beValue (putUint32BE x) = x.toNat := by
  rw [← toNat_putUint32BE_digits x]
  simp only [putUint32BE, beValue, List.length_cons, List.length_nil]
  omega

lemma compareBytes_putUint32BE (x y : UInt32) :
    compareBytes (putUint32BE x) (putUint32BE y) = compare x.toNat y.toNat := by
  rw [compareBytes_eq_compare (by simp), beValue_putUint32BE, beValue_putUint32BE]

end ByteOrder
