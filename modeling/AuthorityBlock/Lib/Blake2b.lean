import AuthorityBlock.Lib.ByteOrder

/-! BLAKE2b with the generic compression function (`hashBlocksGeneric`, `fGeneric`) and the
one-shot `checkSum`. The sixteen working words are a record, and one round is the column step
then the diagonal step of the mixing function `mix`, which is the order-independent regrouping
of the interleaved updates of `fGeneric`. -/

namespace Blake2b

open ByteOrder

def iv : List UInt64 :=
  [0x6a09e667f3bcc908, 0xbb67ae8584caa73b, 0x3c6ef372fe94f82b, 0xa54ff53a5f1d36f1,
   0x510e527fade682d1, 0x9b05688c2b3e6c1f, 0x1f83d9abfb41bd6b, 0x5be0cd19137e2179]

def precomputed : List (List ℕ) :=
  [[0, 2, 4, 6, 1, 3, 5, 7, 8, 10, 12, 14, 9, 11, 13, 15],
   [14, 4, 9, 13, 10, 8, 15, 6, 1, 0, 11, 5, 12, 2, 7, 3],
   [11, 12, 5, 15, 8, 0, 2, 13, 10, 3, 7, 9, 14, 6, 1, 4],
   [7, 3, 13, 11, 9, 1, 12, 14, 2, 5, 4, 15, 6, 10, 0, 8],
   [9, 5, 2, 10, 0, 7, 4, 15, 14, 11, 6, 3, 1, 12, 8, 13],
   [2, 6, 0, 8, 12, 10, 11, 3, 4, 7, 15, 1, 13, 5, 14, 9],
   [12, 1, 14, 4, 5, 15, 13, 10, 0, 6, 9, 8, 7, 3, 2, 11],
   [13, 7, 12, 3, 11, 14, 1, 9, 5, 15, 8, 2, 0, 4, 6, 10],
   [6, 14, 11, 0, 15, 9, 3, 8, 12, 13, 1, 10, 2, 7, 4, 5],
   [10, 8, 7, 1, 2, 4, 6, 5, 15, 9, 3, 13, 11, 14, 12, 0]]

/-- `bits.RotateLeft64 x (-k)`. -/
def rotr (x k : UInt64) : UInt64 := (x >>> k) ||| (x <<< (64 - k))

def mix (a b c d x y : UInt64) : UInt64 × UInt64 × UInt64 × UInt64 :=
  let a := a + x + b
  let d := rotr (d ^^^ a) 32
  let c := c + d
  let b := rotr (b ^^^ c) 24
  let a := a + y + b
  let d := rotr (d ^^^ a) 16
  let c := c + d
  let b := rotr (b ^^^ c) 63
  (a, b, c, d)

structure Work where
  v0 : UInt64
  v1 : UInt64
  v2 : UInt64
  v3 : UInt64
  v4 : UInt64
  v5 : UInt64
  v6 : UInt64
  v7 : UInt64
  v8 : UInt64
  v9 : UInt64
  v10 : UInt64
  v11 : UInt64
  v12 : UInt64
  v13 : UInt64
  v14 : UInt64
  v15 : UInt64

def round (m : List UInt64) (s : List ℕ) (w : Work) : Work :=
  let x := fun i => m.getD (s.getD i 0) 0
  let (v0, v4, v8, v12) := mix w.v0 w.v4 w.v8 w.v12 (x 0) (x 4)
  let (v1, v5, v9, v13) := mix w.v1 w.v5 w.v9 w.v13 (x 1) (x 5)
  let (v2, v6, v10, v14) := mix w.v2 w.v6 w.v10 w.v14 (x 2) (x 6)
  let (v3, v7, v11, v15) := mix w.v3 w.v7 w.v11 w.v15 (x 3) (x 7)
  let (v0, v5, v10, v15) := mix v0 v5 v10 v15 (x 8) (x 12)
  let (v1, v6, v11, v12) := mix v1 v6 v11 v12 (x 9) (x 13)
  let (v2, v7, v8, v13) := mix v2 v7 v8 v13 (x 10) (x 14)
  let (v3, v4, v9, v14) := mix v3 v4 v9 v14 (x 11) (x 15)
  ⟨v0, v1, v2, v3, v4, v5, v6, v7, v8, v9, v10, v11, v12, v13, v14, v15⟩

/-- The first `n` rounds; round `i` uses `precomputed[i % 10]`. -/
def rounds (m : List UInt64) : ℕ → Work → Work
  | 0, w => w
  | n + 1, w => round m (precomputed.getD (n % 10) []) (rounds m n w)

def fGeneric (h m : List UInt64) (c0 c1 flag : UInt64) : List UInt64 :=
  let g := fun i => h.getD i 0
  let w := rounds m 12 ⟨g 0, g 1, g 2, g 3, g 4, g 5, g 6, g 7,
    iv.getD 0 0, iv.getD 1 0, iv.getD 2 0, iv.getD 3 0,
    iv.getD 4 0 ^^^ c0, iv.getD 5 0 ^^^ c1, iv.getD 6 0 ^^^ flag, iv.getD 7 0⟩
  [g 0 ^^^ w.v0 ^^^ w.v8, g 1 ^^^ w.v1 ^^^ w.v9, g 2 ^^^ w.v2 ^^^ w.v10,
    g 3 ^^^ w.v3 ^^^ w.v11, g 4 ^^^ w.v4 ^^^ w.v12, g 5 ^^^ w.v5 ^^^ w.v13,
    g 6 ^^^ w.v6 ^^^ w.v14, g 7 ^^^ w.v7 ^^^ w.v15]

/-- One iteration of the loop of `hashBlocks`: count the block, then compress it. -/
def hashBlock (flag : UInt64) (st : List UInt64 × UInt64 × UInt64) (block : List UInt8) :
    List UInt64 × UInt64 × UInt64 :=
  let c0 := st.2.1 + 128
  let c1 := if c0 < 128 then st.2.2 + 1 else st.2.2
  (fGeneric st.1 ((List.range 16).map fun j => uint64LE (block.drop (8 * j))) c0 c1 flag, c0, c1)

def blocks (data : List UInt8) : List (List UInt8) :=
  (List.range (data.length / 128)).map fun i => (data.drop (128 * i)).take 128

def checkSum (hashSize : ℕ) (data : List UInt8) : List UInt8 :=
  let h0 := iv.set 0 (iv.getD 0 0 ^^^ (hashSize.toUInt64 ||| ((1 : UInt64) <<< 16) |||
    ((1 : UInt64) <<< 24)))
  -- every full block but the last goes through `hashBlocks` unflagged
  let n := if data.length > 128 then
      (if data.length % 128 = 0 then data.length - 128 else data.length - data.length % 128)
    else 0
  let st := (blocks (data.take n)).foldl (hashBlock 0) (h0, 0, 0)
  let rest := data.drop n
  let remaining := (128 - rest.length).toUInt64
  let c1 := if st.2.1 < remaining then st.2.2 - 1 else st.2.2
  let last := hashBlock 0xFFFFFFFFFFFFFFFF (st.1, st.2.1 - remaining, c1)
    (rest ++ List.replicate (128 - rest.length) 0)
  (last.1.take ((hashSize + 7) / 8)).flatMap putUint64LE

def sum256 (data : List UInt8) : List UInt8 := (checkSum 32 data).take 32

lemma sum256_length (data : List UInt8) : (sum256 data).length = 32 := by
  simp [sum256, checkSum, hashBlock, fGeneric]

end Blake2b
