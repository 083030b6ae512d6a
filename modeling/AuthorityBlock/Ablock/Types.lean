import AuthorityBlock.Lib.Blake2b
import Mathlib

/-! `ablock.Address`, `ablock.Bytes32` and `ablock.Blake2b`. A fixed-size byte array is a list
that carries its length. -/

namespace AuthorityBlock

-- `ablock/params.go`
def BlockInterval : UInt64 := 10

def InitialMaxBlockProposers : UInt64 := 101

-- energy per token per second, in units of 1e-18
def EnergyGrowthRate : Int := 5000000000

-- the gas constants of `go-ethereum/params` that `ablock/params.go` builds on
namespace Params

def TxGas : UInt64 := 21000

def TxGasContractCreation : UInt64 := 53000

def TxDataZeroGas : UInt64 := 4

def TxDataNonZeroGas : UInt64 := 68

end Params

def TxGas : UInt64 := 5000

def ClauseGas : UInt64 := Params.TxGas - TxGas

def ClauseGasContractCreation : UInt64 := Params.TxGasContractCreation - TxGas

def MinGasLimit : UInt64 := 1000 * 1000

def GasLimitBoundDivisor : UInt64 := 1024

structure Address where
  bytes : List UInt8
  length_eq : bytes.length = 20
deriving DecidableEq

structure Bytes32 where
  bytes : List UInt8
  length_eq : bytes.length = 32
deriving DecidableEq

/-- go-ethereum's `SetBytes`: the last `n` bytes, padded with zeros on the left. -/
def setBytes (n : ℕ) (b : List UInt8) : List UInt8 :=
  List.replicate (n - b.length) 0 ++ b.drop (b.length - n)

lemma setBytes_length (n : ℕ) (b : List UInt8) : (setBytes n b).length = n := by
  simp only [setBytes, List.length_append, List.length_replicate, List.length_drop]
  omega

lemma setBytes_of_length {n : ℕ} {b : List UInt8} (h : b.length = n) : setBytes n b = b := by
  simp [setBytes, h]

lemma setBytes_dropWhile_zero {n : ℕ} {b : List UInt8} (h : b.length = n) :
    setBytes n (b.dropWhile (· = 0)) = b := by
  have hsplit := List.takeWhile_append_dropWhile (p := fun x : UInt8 => decide (x = 0)) (l := b)
  have hzero : b.takeWhile (fun x : UInt8 => decide (x = 0)) =
      List.replicate (b.takeWhile fun x : UInt8 => decide (x = 0)).length 0 :=
    List.eq_replicate_iff.mpr ⟨rfl, fun x hx => by simpa using List.mem_takeWhile_imp hx⟩
  have hlen := congrArg List.length hsplit
  rw [List.length_append] at hlen
  conv_rhs => rw [← hsplit, hzero]
  rw [setBytes, Nat.sub_eq_zero_of_le
    (show (b.dropWhile fun x : UInt8 => decide (x = 0)).length ≤ n by omega), List.drop_zero]
  congr 2
  omega

def BytesToAddress (b : List UInt8) : Address := ⟨setBytes 20 b, setBytes_length 20 b⟩

def BytesToBytes32 (b : List UInt8) : Bytes32 := ⟨setBytes 32 b, setBytes_length 32 b⟩

namespace Address

def zero : Address := ⟨List.replicate 20 0, rfl⟩

def IsZero (a : Address) : Bool := a == zero

lemma bytesToAddress_bytes (a : Address) : BytesToAddress a.bytes = a := by
  cases a with
  | mk bytes h => simp [BytesToAddress, setBytes_of_length h]

end Address

namespace Bytes32

def zero : Bytes32 := ⟨List.replicate 32 0, rfl⟩

def IsZero (b : Bytes32) : Bool := b == zero

lemma bytesToBytes32_bytes (b : Bytes32) : BytesToBytes32 b.bytes = b := by
  cases b with
  | mk bytes h => simp [BytesToBytes32, setBytes_of_length h]

lemma bytesToBytes32_nil : BytesToBytes32 [] = zero := rfl

end Bytes32

/-- `ablock.Blake2b(data...)`: the BLAKE2b-256 sum of the concatenated arguments (the one-shot
`Sum256` for one argument, the streaming digest for several, which agree). -/
def Blake2b (data : List (List UInt8)) : Bytes32 :=
  ⟨Blake2b.sum256 data.flatten, Blake2b.sum256_length _⟩

end AuthorityBlock
