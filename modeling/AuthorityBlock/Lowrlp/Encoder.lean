import AuthorityBlock.Lib.RlpStream

/-! The model of `lowrlp.Encoder` (`lowrlp/encoder.go`), the encoder behind the trie hasher and
the state's storage ids. String data goes to one buffer and list headers are kept aside:
`List` records where a list starts, `ListEnd` computes its size from the running total of the
header bytes written so far, and `ToBytes` and `ToWriter` splice the headers back in.

The argument is compositional. `Emits e bytes` says that the calls `e` append to any encoder
one encoder whose spliced output is `bytes` and whose size counts them; leaf calls, sequences
and `List`/`ListEnd` pairs keep it, so the calls of every item tree emit its standard RLP
encoding (`Lib/Rlp`). -/

namespace AuthorityBlock.Lowrlp

/-! ## Sizes -/

/-- `putint`: the big-endian bytes of `i` from its highest nonzero one (a zero is one zero
byte). -/
def putint (i : UInt64) : List UInt8 :=
  if i < (1 : UInt64) <<< 8 then [i.toUInt8]
  else if i < (1 : UInt64) <<< 16 then [(i >>> 8).toUInt8, i.toUInt8]
  else if i < (1 : UInt64) <<< 24 then [(i >>> 16).toUInt8, (i >>> 8).toUInt8, i.toUInt8]
  else if i < (1 : UInt64) <<< 32 then
    [(i >>> 24).toUInt8, (i >>> 16).toUInt8, (i >>> 8).toUInt8, i.toUInt8]
  else if i < (1 : UInt64) <<< 40 then
    [(i >>> 32).toUInt8, (i >>> 24).toUInt8, (i >>> 16).toUInt8, (i >>> 8).toUInt8, i.toUInt8]
  else if i < (1 : UInt64) <<< 48 then
    [(i >>> 40).toUInt8, (i >>> 32).toUInt8, (i >>> 24).toUInt8, (i >>> 16).toUInt8,
      (i >>> 8).toUInt8, i.toUInt8]
  else if i < (1 : UInt64) <<< 56 then
    [(i >>> 48).toUInt8, (i >>> 40).toUInt8, (i >>> 32).toUInt8, (i >>> 24).toUInt8,
      (i >>> 16).toUInt8, (i >>> 8).toUInt8, i.toUInt8]
  else
    [(i >>> 56).toUInt8, (i >>> 48).toUInt8, (i >>> 40).toUInt8, (i >>> 32).toUInt8,
      (i >>> 24).toUInt8, (i >>> 16).toUInt8, (i >>> 8).toUInt8, i.toUInt8]

lemma toNat_shiftRight_eight (i : UInt64) : (i >>> 8).toNat = i.toNat / 256 := by
  rw [UInt64.toNat_shiftRight, Nat.shiftRight_eq_div_pow]
  rfl

/-- `intsize`: the number of bytes `putint` writes; the loop shifts a byte out per round. -/
def intsize (i : UInt64) : ℕ :=
  if i >>> 8 = 0 then 1 else intsize (i >>> 8) + 1
termination_by i.toNat
decreasing_by
  have hne : (i >>> 8).toNat ≠ 0 := fun h => ‹¬ i >>> 8 = 0› (UInt64.toNat_inj.mp h)
  rw [toNat_shiftRight_eight] at hne ⊢
  omega

/-- `puthead`: a list or string header, one tag byte for sizes below 56, else a tag counting
the size bytes that follow. -/
def puthead (smalltag largetag : UInt8) (size : UInt64) : List UInt8 :=
  if size < 56 then [smalltag + size.toUInt8]
  else
    let sizesize := (putint size).length
    (largetag + sizesize.toUInt8) :: putint size

section Sizes

/-- The `k` low bytes of `i`, most significant first, one shift per byte: what the case of
`putint` for `k` bytes writes. -/
def lowBytes (i : UInt64) : ℕ → List UInt8
  | 0 => []
  | 1 => [i.toUInt8]
  | k + 2 => (i >>> (8 * (k + 1)).toUInt64).toUInt8 :: lowBytes i (k + 1)

lemma shiftRight_shiftRight (i a b : UInt64) (h : a.toNat + b.toNat < 64) :
    i >>> a >>> b = i >>> (a + b) := by
  apply UInt64.toNat_inj.mp
  simp only [UInt64.toNat_shiftRight, UInt64.toNat_add]
  rw [Nat.mod_eq_of_lt (show a.toNat < 64 by omega), Nat.mod_eq_of_lt (show b.toNat < 64 by omega),
    Nat.mod_eq_of_lt (show (a.toNat + b.toNat) % 2 ^ 64 < 64 by omega),
    Nat.mod_eq_of_lt (show a.toNat + b.toNat < 2 ^ 64 by omega), Nat.shiftRight_add]

lemma toNat_toUInt64_of_lt {n : ℕ} (h : n < 2 ^ 64) : n.toUInt64.toNat = n := by
  rw [Nat.toUInt64_eq, UInt64.toNat_ofNat', Nat.mod_eq_of_lt h]

lemma toUInt64_ne_zero {n : ℕ} (h0 : n ≠ 0) (h : n < 2 ^ 64) : n.toUInt64 ≠ 0 := by
  intro h'
  have := congrArg UInt64.toNat h'
  rw [toNat_toUInt64_of_lt h, UInt64.toNat_zero] at this
  exact h0 this

lemma lowBytes_succ (i : UInt64) : ∀ k, k < 8 → lowBytes i (k + 1) = lowBytes (i >>> 8) k ++ [i.toUInt8]
  | 0, _ => rfl
  | 1, _ => rfl
  | k + 2, hk => by
    have hshift : i >>> 8 >>> (8 * (k + 1)).toUInt64 = i >>> (8 * (k + 2)).toUInt64 := by
      rw [shiftRight_shiftRight _ _ _ (by simp only [toNat_toUInt64_of_lt (show 8 * (k + 1) < 2 ^ 64 by omega), UInt64.reduceToNat]; omega)]
      congr 1
      apply UInt64.toNat_inj.mp
      rw [UInt64.toNat_add, toNat_toUInt64_of_lt (by omega), toNat_toUInt64_of_lt (by omega)]
      simp only [UInt64.reduceToNat]
      omega
    rw [lowBytes, lowBytes_succ i (k + 1) (by omega), lowBytes, hshift, List.cons_append]

lemma toUInt8_toNat (i : UInt64) : i.toNat.toUInt8 = i.toUInt8 := by
  apply UInt8.toNat_inj.mp
  rw [Nat.toUInt8_eq, UInt8.toNat_ofNat', UInt64.toNat_toUInt8]

lemma rlp_putint_eq_lowBytes :
    ∀ (k : ℕ) (i : UInt64), k ≤ 8 → 256 ^ k ≤ i.toNat * 256 → i.toNat < 256 ^ k →
      Rlp.putint i.toNat = lowBytes i k
  | 0, i, _, hlo, hhi => by omega
  | k + 1, i, hk, hlo, hhi => by
    have hpow : 256 ^ (k + 1) = 256 ^ k * 256 := Nat.pow_succ _ _
    have hn : i.toNat ≠ 0 := by
      have := Nat.one_le_two_pow (n := 8 * k)
      rw [show 256 ^ k = 2 ^ (8 * k) by rw [Nat.pow_mul]] at hpow
      omega
    rw [Rlp.putint_of_ne_zero hn, lowBytes_succ i k (by omega), toUInt8_toNat,
      ← toNat_shiftRight_eight]
    cases k with
    | zero =>
      have h0 : (i >>> 8).toNat = 0 := by rw [toNat_shiftRight_eight]; omega
      rw [h0]
      rfl
    | succ k =>
      have hpow' : 256 ^ (k + 1) = 256 ^ k * 256 := Nat.pow_succ _ _
      rw [rlp_putint_eq_lowBytes (k + 1) (i >>> 8) (by omega) (by rw [toNat_shiftRight_eight]; omega)
        (by rw [toNat_shiftRight_eight]; omega)]

lemma putint_case {i : UInt64} {l : List UInt8} (k : ℕ) (hl : lowBytes i k = l) (hk : k ≤ 8)
    (hlo : 256 ^ k ≤ i.toNat * 256) (hhi : i.toNat < 256 ^ k) : l = Rlp.putint i.toNat := by
  rw [rlp_putint_eq_lowBytes k i hk hlo hhi, hl]

lemma putint_eq {i : UInt64} (h0 : i ≠ 0) : putint i = Rlp.putint i.toNat := by
  have hi := i.toNat_lt
  have h0' : i.toNat ≠ 0 := fun h => h0 (UInt64.toNat_inj.mp h)
  unfold putint
  split_ifs with h8 h16 h24 h32 h40 h48 h56 <;>
    simp only [UInt64.lt_iff_toNat_lt, UInt64.toNat_shiftLeft, UInt64.reduceToNat,
      Nat.reduceMod, Nat.shiftLeft_eq, Nat.reducePow, Nat.reduceMul, not_lt] at *
  -- the case for `k` bytes writes `lowBytes i k`
  · exact putint_case 1 rfl (by decide) (by norm_num; omega) (by norm_num; omega)
  · exact putint_case 2 rfl (by decide) (by norm_num; omega) (by norm_num; omega)
  · exact putint_case 3 rfl (by decide) (by norm_num; omega) (by norm_num; omega)
  · exact putint_case 4 rfl (by decide) (by norm_num; omega) (by norm_num; omega)
  · exact putint_case 5 rfl (by decide) (by norm_num; omega) (by norm_num; omega)
  · exact putint_case 6 rfl (by decide) (by norm_num; omega) (by norm_num; omega)
  · exact putint_case 7 rfl (by decide) (by norm_num; omega) (by norm_num; omega)
  · exact putint_case 8 rfl (by decide) (by norm_num; omega) (by norm_num; omega)

lemma intsize_eq {i : UInt64} (h0 : i ≠ 0) : intsize i = (Rlp.putint i.toNat).length := by
  fun_induction intsize i with
  | case1 i h =>
    have hlt : i.toNat < 256 := by
      have := congrArg UInt64.toNat h
      rw [toNat_shiftRight_eight] at this
      simp only [UInt64.toNat_zero] at this
      omega
    rw [Rlp.putint_of_lt (fun h' => h0 (UInt64.toNat_inj.mp h')) hlt, List.length_singleton]
  | case2 i h ih =>
    have h0' : i.toNat ≠ 0 := fun h' => h0 (UInt64.toNat_inj.mp h')
    rw [ih h, Rlp.putint_of_ne_zero h0', List.length_append, List.length_singleton,
      toNat_shiftRight_eight]

lemma length_putint {i : UInt64} (h0 : i ≠ 0) : (putint i).length = intsize i := by
  rw [putint_eq h0, intsize_eq h0]

lemma puthead_eq (smalltag largetag : UInt8) (size : UInt64) :
    puthead smalltag largetag size = Rlp.puthead smalltag largetag size.toNat := by
  have hlt : size < 56 ↔ size.toNat < 56 := UInt64.lt_iff_toNat_lt
  unfold puthead Rlp.puthead
  by_cases h : size < 56
  · rw [if_pos h, if_pos (hlt.mp h), toUInt8_toNat]
  · have h0 : size ≠ 0 := by
      rintro rfl
      exact h (by decide)
    rw [if_neg h, if_neg (mt hlt.mpr h), putint_eq h0]

end Sizes

/-! ## The encoder

Go's `int` sizes and offsets are natural numbers here; `sizebuf`, the scratch buffer for
`putint`, is folded into the bytes it carries. -/

structure Listhead where
  /-- index of this header in string data -/
  offset : ℕ
  /-- total size of encoded data (including list headers) -/
  size : ℕ
deriving DecidableEq, Repr

/-- `listhead.encode`. -/
def Listhead.encode (head : Listhead) : List UInt8 := puthead 0xC0 0xF7 head.size.toUInt64

structure Encoder where
  /-- string data, contains everything except list headers -/
  str : List UInt8
  /-- all list headers -/
  lheads : List Listhead
  /-- sum of sizes of all encoded list headers -/
  lhsize : ℕ
deriving DecidableEq, Repr

namespace Encoder

/-- The zero value of the type, as `var enc lowrlp.Encoder` declares it. -/
def empty : Encoder := ⟨[], [], 0⟩

def reset (w : Encoder) : Encoder :=
  { w with lhsize := 0, str := w.str.take 0, lheads := w.lheads.take 0 }

def size (w : Encoder) : ℕ := w.str.length + w.lhsize

def encodeStringHeader (w : Encoder) (size : ℕ) : Encoder :=
  if size < 56 then { w with str := w.str ++ [0x80 + size.toUInt8] }
  else
    let sizesize := (putint size.toUInt64).length
    { w with str := w.str ++ ((0xB7 + sizesize.toUInt8) :: putint size.toUInt64) }

def encodeString (w : Encoder) (b : List UInt8) : Encoder :=
  if b.length = 1 ∧ b.headD 0 ≤ 0x7F then
    -- fits single byte, no string header
    { w with str := w.str ++ [b.headD 0] }
  else
    let w := w.encodeStringHeader b.length
    { w with str := w.str ++ b }

def encodeUint (w : Encoder) (i : UInt64) : Encoder :=
  if i = 0 then { w with str := w.str ++ [0x80] }
  else if i < 128 then
    -- fits single byte
    { w with str := w.str ++ [i.toUInt8] }
  else
    let s := (putint i).length
    { w with str := w.str ++ ((0x80 + s.toUInt8) :: putint i) }

def encodeRaw (w : Encoder) (r : List UInt8) : Encoder := { w with str := w.str ++ r }

def encodeEmptyString (w : Encoder) : Encoder := { w with str := w.str ++ [0x80] }

def encodeEmptyList (w : Encoder) : Encoder := { w with str := w.str ++ [0xC0] }

/-- `List`: a header at the end of the string data, holding for now the header bytes written so
far; the index it returns is passed to `ListEnd`. -/
def list (w : Encoder) : Encoder × ℕ :=
  ({ w with lheads := w.lheads ++ [⟨w.str.length, w.lhsize⟩] }, w.lheads.length)

/-- `ListEnd`: the header's size is everything written since its `List`, nested headers
included; an index that no `List` returned makes Go panic. -/
def listEnd (w : Encoder) (index : ℕ) : Option Encoder :=
  match w.lheads[index]? with
  | none => none
  | some lh =>
    let size := w.size - lh.offset - lh.size
    some { w with
      lheads := w.lheads.set index { lh with size := size }
      lhsize :=
        if size < 56 then w.lhsize + 1 -- length encoded into kind tag
        else w.lhsize + 1 + intsize size.toUInt64 }

/-- `copy(dst[pos:], src)`: as much of `src` as fits is written at `pos`, and counted. -/
def copyAt (dst : List UInt8) (pos : ℕ) (src : List UInt8) : List UInt8 × ℕ :=
  let n := min (dst.length - pos) src.length
  (dst.take pos ++ src.take n ++ dst.drop (pos + n), n)

/-- A round of the loop of `ToBytes`, over `(out, strpos, pos)`. -/
def toBytesHead (str : List UInt8) (acc : List UInt8 × ℕ × ℕ) (head : Listhead) :
    List UInt8 × ℕ × ℕ :=
  let (out, strpos, pos) := acc
  -- write string data before header
  let (out, n) := copyAt out pos ((str.take head.offset).drop strpos)
  -- write the header
  let enc := head.encode
  ((copyAt out (pos + n) enc).1, strpos + n, pos + n + enc.length)

def toBytes (w : Encoder) : List UInt8 :=
  let (out, strpos, pos) := w.lheads.foldl (toBytesHead w.str) (List.replicate w.size 0, 0, 0)
  -- copy string data after the last list header
  (copyAt out pos (w.str.drop strpos)).1

/-- A round of the loop of `ToWriter` into a `sliceBuffer`, over `(out, strpos)`. -/
def toWriterHead (str : List UInt8) (acc : List UInt8 × ℕ) (head : Listhead) :
    List UInt8 × ℕ :=
  let (out, strpos) := acc
  -- write string data before header
  let (out, strpos) :=
    if head.offset - strpos > 0 then
      let data := (str.take head.offset).drop strpos
      (out ++ data, strpos + data.length)
    else (out, strpos)
  -- write the header
  (out ++ head.encode, strpos)

/-- `ToWriter` into the trie hasher's `sliceBuffer`, whose `Write` appends and never fails. -/
def toWriter (w : Encoder) (out : List UInt8) : List UInt8 :=
  let (out, strpos) := w.lheads.foldl (toWriterHead w.str) (out, 0)
  if strpos < w.str.length then
    -- write string data after the last list header
    out ++ w.str.drop strpos
  else out

end Encoder

/-! ## Splicing the headers back in

Both loops write the string data up to each header, then the header, then the data after the
last one: `flush` says so once, and the two loops are proved to write it. -/

namespace Encoder

/-- What the loops of `ToBytes` and `ToWriter` write from string position `strpos` on, the
data after the last header included. -/
def flush (str : List UInt8) : List Listhead → ℕ → List UInt8
  | [], strpos => str.drop strpos
  | head :: heads, strpos =>
    let data := (str.take head.offset).drop strpos
    data ++ head.encode ++ flush str heads (strpos + data.length)

section Loops

variable (str : List UInt8)

lemma toWriterHead_eq (out : List UInt8) (strpos : ℕ) (head : Listhead) :
    toWriterHead str (out, strpos) head =
      (out ++ (str.take head.offset).drop strpos ++ head.encode,
        strpos + ((str.take head.offset).drop strpos).length) := by
  unfold toWriterHead
  dsimp only
  split_ifs with h
  · rfl
  · -- a header at or before `strpos` has no data before it
    have hnil : (str.take head.offset).drop strpos = [] :=
      List.drop_eq_nil_of_le (by rw [List.length_take]; omega)
    simp [hnil]

lemma toWriter_loop : ∀ (heads : List Listhead) (out : List UInt8) (strpos : ℕ),
    (match heads.foldl (toWriterHead str) (out, strpos) with
      | (out, strpos) => if strpos < str.length then out ++ str.drop strpos else out) =
      out ++ flush str heads strpos
  | [], out, strpos => by
    rw [List.foldl_nil, flush]
    dsimp only
    split_ifs with h
    · rfl
    · rw [List.drop_eq_nil_of_le (by omega), List.append_nil]
  | head :: heads, out, strpos => by
    rw [List.foldl_cons, toWriterHead_eq, toWriter_loop heads, flush]
    simp only [List.append_assoc]

lemma copyAt_replicate (acc src : List UInt8) {k : ℕ} (h : src.length ≤ k) :
    copyAt (acc ++ List.replicate k 0) acc.length src =
      (acc ++ src ++ List.replicate (k - src.length) 0, src.length) := by
  have hmin : min ((acc ++ List.replicate k 0).length - acc.length) src.length = src.length := by
    simp only [List.length_append, List.length_replicate]
    omega
  have hdrop : (acc ++ List.replicate k 0).drop (acc.length + src.length) =
      List.replicate (k - src.length) 0 := by
    rw [List.drop_append, List.drop_eq_nil_of_le (by omega), List.nil_append, List.drop_replicate,
      Nat.add_sub_cancel_left]
  simp only [copyAt, hmin, List.take_left', List.take_length, hdrop, List.append_assoc]

lemma toBytesHead_eq (acc : List UInt8) (strpos k : ℕ) (head : Listhead)
    (h : ((str.take head.offset).drop strpos).length + head.encode.length ≤ k) :
    toBytesHead str (acc ++ List.replicate k 0, strpos, acc.length) head =
      (acc ++ (str.take head.offset).drop strpos ++ head.encode ++
          List.replicate (k - ((str.take head.offset).drop strpos).length - head.encode.length) 0,
        strpos + ((str.take head.offset).drop strpos).length,
        (acc ++ (str.take head.offset).drop strpos ++ head.encode).length) := by
  have hdata := copyAt_replicate acc ((str.take head.offset).drop strpos)
    (show ((str.take head.offset).drop strpos).length ≤ k by omega)
  have henc := copyAt_replicate (acc ++ (str.take head.offset).drop strpos) head.encode
    (show head.encode.length ≤ k - ((str.take head.offset).drop strpos).length by omega)
  rw [List.length_append] at henc
  simp only [toBytesHead]
  rw [hdata]
  dsimp only
  rw [henc, Nat.sub_sub]
  simp only [List.append_assoc, List.length_append, Nat.add_assoc]

lemma toBytes_loop : ∀ (heads : List Listhead) (acc : List UInt8) (strpos k : ℕ),
    (flush str heads strpos).length ≤ k →
    (match heads.foldl (toBytesHead str) (acc ++ List.replicate k 0, strpos, acc.length) with
      | (out, strpos, pos) => (copyAt out pos (str.drop strpos)).1) =
      acc ++ flush str heads strpos ++ List.replicate (k - (flush str heads strpos).length) 0
  | [], acc, strpos, k, h => by
    rw [List.foldl_nil, flush]
    exact congrArg Prod.fst (copyAt_replicate acc _ h)
  | head :: heads, acc, strpos, k, h => by
    simp only [flush, List.length_append] at h
    rw [List.foldl_cons, toBytesHead_eq str acc strpos k head (by omega),
      toBytes_loop heads _ _ _ (by omega), flush]
    simp only [List.append_assoc, List.length_append, Nat.sub_sub, Nat.add_assoc]

end Loops

lemma toWriter_eq (w : Encoder) (out : List UInt8) :
    w.toWriter out = out ++ flush w.str w.lheads 0 :=
  toWriter_loop w.str w.lheads out 0

lemma toBytes_eq (w : Encoder) (h : (flush w.str w.lheads 0).length ≤ w.size) :
    w.toBytes = flush w.str w.lheads 0 ++
      List.replicate (w.size - (flush w.str w.lheads 0).length) 0 := by
  have := toBytes_loop w.str w.lheads [] 0 w.size h
  rwa [List.nil_append, List.nil_append] at this

end Encoder

/-! ## Calls made one after another

The calls that build an encoder `v` from the zero value, made on an encoder `w`, add `v`'s
string data after `w`'s and `v`'s headers, moved by `w`'s string length, after `w`'s. -/

def Listhead.shift (n : ℕ) (head : Listhead) : Listhead := { head with offset := n + head.offset }

@[simp] lemma Listhead.encode_shift (n : ℕ) (head : Listhead) :
    (head.shift n).encode = head.encode := rfl

@[simp] lemma Listhead.offset_shift (n : ℕ) (head : Listhead) :
    (head.shift n).offset = n + head.offset := rfl

namespace Encoder

/-- `w` followed by the calls that built `v` from the zero value. -/
def append (w v : Encoder) : Encoder :=
  ⟨w.str ++ v.str, w.lheads ++ v.lheads.map (Listhead.shift w.str.length), w.lhsize + v.lhsize⟩

@[simp] lemma str_append (w v : Encoder) : (w.append v).str = w.str ++ v.str := rfl

@[simp] lemma lheads_append (w v : Encoder) :
    (w.append v).lheads = w.lheads ++ v.lheads.map (Listhead.shift w.str.length) := rfl

@[simp] lemma lhsize_append (w v : Encoder) : (w.append v).lhsize = w.lhsize + v.lhsize := rfl

lemma size_append (w v : Encoder) : (w.append v).size = w.size + v.size := by
  simp only [size, str_append, lhsize_append, List.length_append]
  omega

lemma append_empty (w : Encoder) : w.append empty = w := by
  simp [append, empty]

lemma empty_append (v : Encoder) : empty.append v = v := by
  have hshift : Listhead.shift 0 = id := by
    funext head
    simp [Listhead.shift]
  simp [append, empty, hshift]

lemma append_assoc (u v w : Encoder) : (u.append v).append w = u.append (v.append w) := by
  have hshift : Listhead.shift (u.str.length + v.str.length) =
      Listhead.shift u.str.length ∘ Listhead.shift v.str.length := by
    funext head
    simp only [Listhead.shift, Function.comp_apply, Nat.add_assoc]
  simp [append, List.map_map, hshift, Nat.add_assoc]

section Flush

variable (ws vs : List UInt8)

lemma flush_shift : ∀ (vh : List Listhead) (q : ℕ),
    flush (ws ++ vs) (vh.map (Listhead.shift ws.length)) (ws.length + q) = flush vs vh q
  | [], q => by
    rw [List.map_nil, flush, flush, List.drop_append, List.drop_eq_nil_of_le (by omega),
      List.nil_append, Nat.add_sub_cancel_left]
  | head :: vh, q => by
    have hdata : ((ws ++ vs).take (ws.length + head.offset)).drop (ws.length + q) =
        (vs.take head.offset).drop q := by
      rw [List.take_append, List.take_of_length_le (by omega), Nat.add_sub_cancel_left,
        List.drop_append, List.drop_eq_nil_of_le (by omega), List.nil_append,
        Nat.add_sub_cancel_left]
    rw [List.map_cons, flush, flush, Listhead.offset_shift, Listhead.encode_shift, hdata,
      Nat.add_assoc, flush_shift vh]

lemma flush_append_shift (vh : List Listhead) {p : ℕ} (hp : p ≤ ws.length) :
    flush (ws ++ vs) (vh.map (Listhead.shift ws.length)) p = ws.drop p ++ flush vs vh 0 := by
  cases vh with
  | nil =>
    rw [List.map_nil, flush, flush, List.drop_append_of_le_length hp, List.drop_zero]
  | cons head vh =>
    have hdata : ((ws ++ vs).take (ws.length + head.offset)).drop p =
        ws.drop p ++ vs.take head.offset := by
      rw [List.take_append, List.take_of_length_le (by omega), Nat.add_sub_cancel_left,
        List.drop_append_of_le_length hp]
    have hpos : p + (ws.drop p ++ vs.take head.offset).length =
        ws.length + (vs.take head.offset).length := by
      rw [List.length_append, List.length_drop]
      omega
    rw [List.map_cons, flush, flush, Listhead.offset_shift, Listhead.encode_shift, hdata, hpos,
      flush_shift, List.drop_zero, Nat.zero_add]
    simp only [List.append_assoc]

lemma flush_append : ∀ (wh vh : List Listhead), (∀ head ∈ wh, head.offset ≤ ws.length) →
    ∀ {p : ℕ}, p ≤ ws.length →
      flush (ws ++ vs) (wh ++ vh.map (Listhead.shift ws.length)) p = flush ws wh p ++ flush vs vh 0
  | [], vh, _, p, hp => by
    rw [List.nil_append, flush_append_shift ws vs vh hp, flush]
  | head :: wh, vh, hw, p, hp => by
    have hoff := hw head List.mem_cons_self
    have hdata : ((ws ++ vs).take head.offset).drop p = (ws.take head.offset).drop p := by
      rw [List.take_append_of_le_length hoff]
    have hp' : p + ((ws.take head.offset).drop p).length ≤ ws.length := by
      rw [List.length_drop, List.length_take]
      omega
    rw [List.cons_append, flush, flush, hdata,
      flush_append wh vh (fun h hh => hw h (List.mem_cons_of_mem _ hh)) hp']
    simp only [List.append_assoc]

end Flush

/-- `v` writes `bytes`: its headers lie within its string data, splicing them in gives
`bytes`, and its size counts them. -/
structure Writes (v : Encoder) (bytes : List UInt8) : Prop where
  offset_le : ∀ head ∈ v.lheads, head.offset ≤ v.str.length
  flush_eq : flush v.str v.lheads 0 = bytes
  size_eq : v.size = bytes.length

lemma writes_empty : empty.Writes [] :=
  ⟨fun _ h => by simp [empty] at h, rfl, rfl⟩

lemma writes_str (s : List UInt8) : (⟨s, [], 0⟩ : Encoder).Writes s :=
  ⟨fun _ h => by simp at h, List.drop_zero, by simp [size]⟩

lemma Writes.append {v v' : Encoder} {b b' : List UInt8} (hv : v.Writes b) (hv' : v'.Writes b') :
    (v.append v').Writes (b ++ b') := by
  constructor
  · intro head hhead
    rw [lheads_append, List.mem_append, List.mem_map] at hhead
    rw [str_append, List.length_append]
    rcases hhead with hhead | ⟨head', hhead', rfl⟩
    · have := hv.offset_le head hhead
      omega
    · have := hv'.offset_le head' hhead'
      rw [Listhead.offset_shift]
      omega
  · rw [str_append, lheads_append, flush_append _ _ _ _ hv.offset_le (Nat.zero_le _), hv.flush_eq,
      hv'.flush_eq]
  · rw [size_append, hv.size_eq, hv'.size_eq, List.length_append]

lemma Writes.toWriter {v : Encoder} {b : List UInt8} (hv : v.Writes b) (out : List UInt8) :
    v.toWriter out = out ++ b := by
  rw [toWriter_eq, hv.flush_eq]

lemma Writes.toBytes {v : Encoder} {b : List UInt8} (hv : v.Writes b) : v.toBytes = b := by
  rw [toBytes_eq v (by rw [hv.flush_eq, hv.size_eq]), hv.flush_eq, hv.size_eq, Nat.sub_self,
    List.replicate_zero, List.append_nil]

end Encoder

/-- The calls `e` emit `bytes`: on any encoder they append one encoder that writes `bytes`. -/
def Emits (e : Encoder → Option Encoder) (bytes : List UInt8) : Prop :=
  ∃ v : Encoder, v.Writes bytes ∧ ∀ w, e w = some (w.append v)

section Emits

open Encoder

lemma emits_pure : Emits some [] :=
  ⟨empty, writes_empty, fun w => by rw [append_empty]⟩

lemma emits_str (s : List UInt8) : Emits (fun w => some { w with str := w.str ++ s }) s :=
  ⟨⟨s, [], 0⟩, writes_str s, fun w => by simp [append]⟩

lemma Emits.bind {e e' : Encoder → Option Encoder} {b b' : List UInt8} (h : Emits e b)
    (h' : Emits e' b') : Emits (fun w => (e w).bind e') (b ++ b') := by
  obtain ⟨v, hv, he⟩ := h
  obtain ⟨v', hv', he'⟩ := h'
  exact ⟨v.append v', hv.append hv', fun w => by
    dsimp only
    rw [he, Option.bind_some, he', append_assoc]⟩

/-! ### The leaf calls -/

namespace Encoder

lemma encodeStringHeader_eq (w : Encoder) {n : ℕ} (hn : n < 2 ^ 64) :
    w.encodeStringHeader n = { w with str := w.str ++ Rlp.puthead 0x80 0xB7 n } := by
  unfold encodeStringHeader
  by_cases h : n < 56
  · rw [if_pos h, Rlp.puthead_of_lt h]
  · rw [if_neg h, Rlp.puthead_of_le (by omega), putint_eq (toUInt64_ne_zero (by omega) hn),
      toNat_toUInt64_of_lt hn]

lemma encodeString_eq (w : Encoder) {b : List UInt8} (hb : b.length < 2 ^ 64) :
    w.encodeString b = { w with str := w.str ++ Rlp.encodeBytes b } := by
  unfold encodeString
  rw [encodeStringHeader_eq w hb]
  -- the cases of `encodeBytes`: one byte, or a header
  match b with
  | [x] =>
    by_cases hx : x ≤ 0x7F
    · simp [hx, Rlp.encodeBytes]
    · simp [hx, Rlp.encodeBytes, Rlp.puthead]
  | [] => simp [Rlp.encodeBytes, Rlp.puthead]
  | x :: y :: rest =>
    have hlen : (x :: y :: rest).length ≠ 1 := by simp
    simp only [hlen, false_and, if_false, Rlp.encodeBytes, Rlp.puthead, List.append_assoc]
    split_ifs <;> rfl

lemma encodeUint_eq (w : Encoder) (i : UInt64) :
    w.encodeUint i = { w with str := w.str ++ Rlp.encodeUint i } := by
  unfold encodeUint Rlp.encodeUint
  split_ifs with h0 h128
  · rfl
  · rfl
  · rw [putint_eq h0]

end Encoder

/-- `off := e.List()`, the calls of the list's items, `e.ListEnd(off)`: a list as
`fullNode.encode` and `shortNode.encode` write one. -/
def Encoder.withList (body : Encoder → Option Encoder) (w : Encoder) : Option Encoder :=
  let (w, off) := w.list
  (body w).bind fun w => w.listEnd off

lemma listEnd_lhsize {n : ℕ} (hn : n < 2 ^ 64) (m : ℕ) :
    (if n < 56 then m + 1 else m + 1 + intsize n.toUInt64) =
      m + (Rlp.puthead 0xC0 0xF7 n).length := by
  by_cases h : n < 56
  · rw [if_pos h, Rlp.puthead_of_lt h, List.length_singleton]
  · rw [if_neg h, Rlp.puthead_of_le (by omega), List.length_cons,
      intsize_eq (toUInt64_ne_zero (by omega) hn), toNat_toUInt64_of_lt hn]
    omega

lemma encode_listhead {n : ℕ} (hn : n < 2 ^ 64) (offset : ℕ) :
    (⟨offset, n⟩ : Listhead).encode = Rlp.puthead 0xC0 0xF7 n := by
  rw [Listhead.encode, puthead_eq, toNat_toUInt64_of_lt hn]

lemma getElem?_list_header (w : Encoder) (hd : Listhead) (rest : List Listhead) :
    (w.lheads ++ [hd] ++ rest)[w.lheads.length]? = some hd := by
  rw [List.append_assoc, List.getElem?_append_right (Nat.le_refl _), Nat.sub_self]
  rfl

lemma set_list_header (w : Encoder) (hd hd' : Listhead) (rest : List Listhead) :
    (w.lheads ++ [hd] ++ rest).set w.lheads.length hd' = w.lheads ++ [hd'] ++ rest := by
  rw [List.append_assoc, List.set_append_right _ _ (Nat.le_refl _), Nat.sub_self,
    List.singleton_append, List.set_cons_zero, List.append_assoc, List.singleton_append]

lemma emits_list {body : Encoder → Option Encoder} {c : List UInt8} (h : Emits body c)
    (hc : c.length < 2 ^ 64) : Emits (Encoder.withList body) (Rlp.encodeList c) := by
  obtain ⟨v, hv, hbody⟩ := h
  refine ⟨⟨v.str, ⟨0, c.length⟩ :: v.lheads, v.lhsize + (Rlp.puthead 0xC0 0xF7 c.length).length⟩,
    ⟨?_, ?_, ?_⟩, ?_⟩
  · intro head hhead
    rcases List.mem_cons.mp hhead with rfl | hhead
    · exact Nat.zero_le _
    · exact hv.offset_le head hhead
  · rw [flush, List.take_zero, List.drop_nil, List.nil_append, List.length_nil, Nat.add_zero,
      hv.flush_eq, encode_listhead hc, Rlp.encodeList]
  · have := hv.size_eq
    simp only [Encoder.size, Rlp.encodeList, List.length_append] at this ⊢
    omega
  · intro w
    -- `ListEnd` finds the header `List` recorded, and the size of everything after it
    have hsize : ∀ hd : Listhead, ({ w with lheads := w.lheads ++ [hd] }.append v).size -
        w.str.length - w.lhsize = c.length := by
      intro hd
      rw [Encoder.size_append, hv.size_eq, Nat.sub_sub]
      exact Nat.add_sub_cancel_left _ _
    simp only [Encoder.withList, Encoder.list, hbody, Option.bind_some, Encoder.listEnd,
      Encoder.lheads_append, getElem?_list_header, hsize, listEnd_lhsize hc, set_list_header]
    simp only [Encoder.append, List.map_cons, Listhead.shift, Nat.add_zero, List.append_assoc,
      List.singleton_append, Nat.add_assoc]

end Emits


/-! ## Item trees -/

/-- What a caller emits: byte strings, integers, pre-encoded items, the two empty shortcuts,
and lists of items. -/
inductive Item
  | string (b : List UInt8)
  | uint (i : UInt64)
  | raw (r : List UInt8)
  | emptyString
  | emptyList
  | list (items : List Item)
deriving Repr

mutual

/-- The standard RLP encoding of an item; a pre-encoded item is its own. -/
def Item.rlp : Item → List UInt8
  | .string b => Rlp.encodeBytes b
  | .uint i => Rlp.encodeUint i
  | .raw r => r
  | .emptyString => Rlp.EmptyString
  | .emptyList => Rlp.EmptyList
  | .list items => Rlp.encodeList (Item.rlpList items)

def Item.rlpList : List Item → List UInt8
  | [] => []
  | t :: ts => t.rlp ++ Item.rlpList ts

end

mutual

/-- The encoder calls that emit an item. -/
def Item.emit : Item → Encoder → Option Encoder
  | .string b, w => some (w.encodeString b)
  | .uint i, w => some (w.encodeUint i)
  | .raw r, w => some (w.encodeRaw r)
  | .emptyString, w => some w.encodeEmptyString
  | .emptyList, w => some w.encodeEmptyList
  | .list items, w => w.withList (Item.emitList items)

def Item.emitList : List Item → Encoder → Option Encoder
  | [], w => some w
  | t :: ts, w => (t.emit w).bind (Item.emitList ts)

end

lemma emits_of_eq {e : Encoder → Option Encoder} {b : List UInt8}
    (he : ∀ w, e w = some { w with str := w.str ++ b }) : Emits e b := by
  obtain ⟨v, hv, hs⟩ := emits_str b
  exact ⟨v, hv, fun w => (he w).trans (hs w)⟩

lemma length_le_encodeList (c : List UInt8) : c.length ≤ (Rlp.encodeList c).length := by
  rw [Rlp.encodeList, List.length_append]
  omega

mutual

/-- The calls of every item emit its standard encoding: by induction on the tree, with the
leaves, the sequences and the lists of `Emits`. -/
theorem Item.emits : ∀ t : Item, t.rlp.length < 2 ^ 64 → Emits t.emit t.rlp
  | .string b, h => emits_of_eq fun w =>
      congrArg some (w.encodeString_eq (lt_of_le_of_lt (Rlp.length_le_encodeBytes b) h))
  | .uint i, _ => emits_of_eq fun w => congrArg some (w.encodeUint_eq i)
  | .raw r, _ => emits_of_eq fun _ => rfl
  | .emptyString, _ => emits_of_eq fun _ => rfl
  | .emptyList, _ => emits_of_eq fun _ => rfl
  | .list items, h => by
    have hc := lt_of_le_of_lt (length_le_encodeList _) h
    exact emits_list (Item.emitsList items hc) hc

theorem Item.emitsList : ∀ ts : List Item, (Item.rlpList ts).length < 2 ^ 64 →
    Emits (Item.emitList ts) (Item.rlpList ts)
  | [], _ => emits_pure
  | t :: ts, h => by
    rw [Item.rlpList, List.length_append] at h
    exact (Item.emits t (by omega)).bind (Item.emitsList ts (by omega))

end

lemma Encoder.reset_eq (w : Encoder) : w.reset = Encoder.empty := by
  simp [Encoder.reset, Encoder.empty]

/-- A reset encoder (or the zero value) into which the calls of any sequence of item trees
are made is left whole, and both `ToBytes` and `ToWriter` write the standard RLP encoding of
the sequence. The bound is Go's: no slice is as long as `2 ^ 64`. -/
theorem encoder_emits_rlp (w₀ : Encoder) (ts : List Item)
    (hlen : (Item.rlpList ts).length < 2 ^ 64) :
    ∃ w, Item.emitList ts w₀.reset = some w ∧ w.toBytes = Item.rlpList ts ∧
      ∀ out, w.toWriter out = out ++ Item.rlpList ts := by
  obtain ⟨v, hv, he⟩ := Item.emitsList ts hlen
  refine ⟨v, ?_, hv.toBytes, hv.toWriter⟩
  rw [he, Encoder.reset_eq, Encoder.empty_append]

theorem encoder_emits_rlp_node :
    (Item.rlpList [.list [.string [0x01, 0x02, 0x03], .uint 5, .emptyString, .raw [0xC0],
        .list [.emptyList, .string [0x7F]]]]).length < 2 ^ 64 ∧
      ∃ w, Item.emitList [.list [.string [0x01, 0x02, 0x03], .uint 5, .emptyString, .raw [0xC0],
          .list [.emptyList, .string [0x7F]]]] Encoder.empty.reset = some w ∧
        w.toBytes = Item.rlpList [.list [.string [0x01, 0x02, 0x03], .uint 5, .emptyString,
          .raw [0xC0], .list [.emptyList, .string [0x7F]]]] ∧
        ∀ out, w.toWriter out = out ++ Item.rlpList [.list [.string [0x01, 0x02, 0x03], .uint 5,
          .emptyString, .raw [0xC0], .list [.emptyList, .string [0x7F]]]] :=
  ⟨by decide, encoder_emits_rlp _ _ (by decide)⟩

end AuthorityBlock.Lowrlp
