import AuthorityBlock.State.Account
import AuthorityBlock.StackedMap.Basic
import AuthorityBlock.Lib.Rlp

/-! The model of `state/state.go`. Every change goes into a stacked map whose source getter
reads the committed tries; the tries and the per-account cache in front of them are read
only, so the model reads the committed values directly (read errors of the database are not
modelled, hence `Except Empty`). `Delete` does not touch storage: it bumps the address's
storage barrier, and storage keys carry the barrier they were written under. A panic of the
Go code is `none`. -/

namespace AuthorityBlock.State

inductive Key
  | account (addr : Address)
  | code (addr : Address)
  | storage (addr : Address) (barrier : ℕ) (key : Bytes32)
  | storageBarrier (addr : Address)
deriving DecidableEq

inductive Value
  | account (a : Account)
  | code (code : List UInt8)
  | raw (raw : List UInt8)
  | barrier (barrier : ℕ)
deriving DecidableEq

/-- The committed world a state is opened on: its accounts, their code and their storage. -/
structure Committed where
  account : Address → Account
  code : Address → List UInt8
  storage : Address → Bytes32 → List UInt8

def cacheGetter (c : Committed) : Key → Except Empty (Option Value)
  | .account addr => .ok (some (.account (c.account addr)))
  | .code addr => .ok (some (.code (c.code addr)))
  -- an address deleted in the life of this state has no storage below the stacked map
  | .storage addr barrier key =>
    .ok (some (.raw (if barrier ≠ 0 then [] else c.storage addr key)))
  | .storageBarrier _ => .ok (some (.barrier 0))

/-- What `GetStorage` makes of a raw value; an RLP list is a custom value, read as its hash. -/
def decodeStorage (raw : List UInt8) : Except String Bytes32 :=
  if raw.length = 0 then .ok Bytes32.zero
  else
    match Rlp.split raw with
    | .error err => .error ("state: " ++ err)
    | .ok (.list, _, _) => .ok (Blake2b [raw])
    | .ok (_, content, _) => .ok (BytesToBytes32 content)

/-- What `SetStorage` writes: nothing for zero, else the RLP string of the value without its
leading zero bytes. -/
def encodeStorage (value : Bytes32) : List UInt8 :=
  if value.IsZero then [] else Rlp.encodeBytes (value.bytes.dropWhile (· = 0))

lemma decodeStorage_encodeStorage (value : Bytes32) :
    decodeStorage (encodeStorage value) = .ok value := by
  unfold encodeStorage
  by_cases hz : value.IsZero
  · have hv : value = Bytes32.zero := by simpa [Bytes32.IsZero] using hz
    rw [if_pos hz, hv]
    rfl
  · rw [if_neg hz]
    have hlen : (value.bytes.dropWhile (· = 0)).length < 56 :=
      lt_of_le_of_lt (List.length_dropWhile_le _ _) (by rw [value.length_eq]; decide)
    obtain ⟨k, hk, hsplit⟩ := Rlp.split_encodeBytes hlen
    have hne : (Rlp.encodeBytes (value.bytes.dropWhile (· = 0))).length ≠ 0 := by
      unfold Rlp.encodeBytes
      split <;> (try split) <;> simp
    unfold decodeStorage
    rw [if_neg hne, hsplit]
    cases k with
    | list => exact absurd rfl hk
    | byte | string =>
      change Except.ok (BytesToBytes32 _) = _
      obtain ⟨bytes, h⟩ := value
      simp only [BytesToBytes32, setBytes_dropWhile_zero h]

end AuthorityBlock.State

namespace AuthorityBlock

open State

structure State where
  committed : Committed
  sm : StackedMap Key Value

namespace State

def new (committed : Committed) : State := ⟨committed, StackedMap.new⟩

variable (s : State)

/-- `sm.Get` followed by Go's type assertion, which panics on a missing value. -/
def get (key : Key) : Option Value :=
  match s.sm.get (cacheGetter s.committed) key with
  | some (.ok (some v)) => some v
  | _ => none

def put (key : Key) (value : Value) : Option State :=
  (s.sm.put key value).map fun sm => { s with sm }

def getAccount (addr : Address) : Option Account :=
  match s.get (.account addr) with
  | some (.account a) => some a
  | _ => none

def updateAccount (addr : Address) (acc : Account) : Option State :=
  s.put (.account addr) (.account acc)

def getStorageBarrier (addr : Address) : Option ℕ :=
  match s.get (.storageBarrier addr) with
  | some (.barrier b) => some b
  | _ => none

def setStorageBarrier (addr : Address) (barrier : ℕ) : Option State :=
  s.put (.storageBarrier addr) (.barrier barrier)

def getBalance (addr : Address) : Option ℤ := (s.getAccount addr).map (·.balance)

def setBalance (addr : Address) (balance : ℤ) : Option State := do
  let cpy ← s.getAccount addr
  s.updateAccount addr { cpy with balance }

def getEnergy (addr : Address) (blockTime : UInt64) : Option ℤ :=
  (s.getAccount addr).map (·.calcEnergy blockTime)

def setEnergy (addr : Address) (energy : ℤ) (blockTime : UInt64) : Option State := do
  let cpy ← s.getAccount addr
  s.updateAccount addr { cpy with energy, blockTime }

def getMaster (addr : Address) : Option Address :=
  (s.getAccount addr).map fun a => BytesToAddress a.master

def setMaster (addr master : Address) : Option State := do
  let cpy ← s.getAccount addr
  s.updateAccount addr { cpy with master := if master.IsZero then [] else master.bytes }

def getRawStorage (addr : Address) (key : Bytes32) : Option (List UInt8) := do
  let barrier ← s.getStorageBarrier addr
  match s.get (.storage addr barrier key) with
  | some (.raw raw) => some raw
  | _ => none

def setRawStorage (addr : Address) (key : Bytes32) (raw : List UInt8) : Option State := do
  let barrier ← s.getStorageBarrier addr
  s.put (.storage addr barrier key) (.raw raw)

def getStorage (addr : Address) (key : Bytes32) : Option (Except String Bytes32) :=
  (s.getRawStorage addr key).map decodeStorage

def setStorage (addr : Address) (key value : Bytes32) : Option State :=
  s.setRawStorage addr key (encodeStorage value)

def getCode (addr : Address) : Option (List UInt8) :=
  match s.get (.code addr) with
  | some (.code code) => some code
  | _ => none

def getCodeHash (addr : Address) : Option Bytes32 :=
  (s.getAccount addr).map fun a => BytesToBytes32 a.codeHash

/-- `SetCode` stores the code first, then the hash `crypto.Keccak256` gives it (empty code has
no hash); the hash function is a parameter of the model. -/
def setCode (keccak256 : List UInt8 → List UInt8) (addr : Address) (code : List UInt8) :
    Option State := do
  let s ← s.put (.code addr) (.code code)
  let cpy ← s.getAccount addr
  s.updateAccount addr { cpy with codeHash := if code.length > 0 then keccak256 code else [] }

def Exists (addr : Address) : Option Bool := (s.getAccount addr).map fun a => !a.IsEmpty

def delete (addr : Address) : Option State := do
  let s ← s.put (.code addr) (.code [])
  let s ← s.updateAccount addr emptyAccount
  let barrier ← s.getStorageBarrier addr
  s.setStorageBarrier addr (barrier + 1)

def newCheckpoint : State × ℕ :=
  let (sm, revision) := s.sm.push
  ({ s with sm }, revision)

def revertTo (revision : ℕ) : Option State :=
  (s.sm.popTo revision).map fun sm => { s with sm }

inductive Op
  | setBalance (addr : Address) (balance : ℤ)
  | setEnergy (addr : Address) (energy : ℤ) (blockTime : UInt64)
  | setMaster (addr master : Address)
  | setCode (addr : Address) (code : List UInt8)
  | setStorage (addr : Address) (key value : Bytes32)
  | setRawStorage (addr : Address) (key : Bytes32) (raw : List UInt8)
  | delete (addr : Address)
  | newCheckpoint
  | revertTo (revision : ℕ)

def Op.apply (keccak256 : List UInt8 → List UInt8) : Op → State → Option State
  | .setBalance addr balance, s => s.setBalance addr balance
  | .setEnergy addr energy blockTime, s => s.setEnergy addr energy blockTime
  | .setMaster addr master, s => s.setMaster addr master
  | .setCode addr code, s => s.setCode keccak256 addr code
  | .setStorage addr key value, s => s.setStorage addr key value
  | .setRawStorage addr key raw, s => s.setRawStorage addr key raw
  | .delete addr, s => s.delete addr
  | .newCheckpoint, s => some s.newCheckpoint.1
  | .revertTo revision, s => s.revertTo revision

def run (keccak256 : List UInt8 → List UInt8) : State → List Op → Option State
  | s, [] => some s
  | s, op :: ops => (op.apply keccak256 s).bind (run keccak256 · ops)

end State

end AuthorityBlock
