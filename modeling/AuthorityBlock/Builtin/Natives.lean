import AuthorityBlock.Runtime.Exec
import AuthorityBlock.Lib.RlpStream
import AuthorityBlock.Builtin.Prototype
import AuthorityBlock.Consensus.Cache

/-! The builtin contracts as the runtime calls them natively, on the state: `Params.Get`, the
energy of `builtin/energy` and the credit plans and sponsors of `builtin/prototype`. Each keeps
its data RLP-encoded in the storage of its contract's address, through `State.DecodeStorage`
and `State.EncodeStorage`; a value that does not decode is an error of the state. They only read
and write the state, so each keeps what is saved below the world. -/

namespace AuthorityBlock.Builtin

open AuthorityBlock.Runtime State Hoare Rlp Consensus

/-- `State.DecodeStorage`: the raw value of the key, given to the decoder. -/
def DecodeStorage {α : Type} (addr : Address) (key : Bytes32)
    (dec : List UInt8 → Except String α) : Exec α := do
  let raw ← read (·.getRawStorage addr key)
  match dec raw with
  | .ok a => pure a
  | .error e => throw ("state: " ++ e)

/-- `State.EncodeStorage`: the encoder's value, stored raw. -/
def EncodeStorage (addr : Address) (key : Bytes32) (enc : Except String (List UInt8)) :
    Exec Unit :=
  match enc with
  | .ok raw => update (·.setRawStorage addr key raw)
  | .error e => throw ("state: " ++ e)

def GetEnergy (addr : Address) (blockTime : UInt64) : Exec ℤ := read (·.getEnergy addr blockTime)

def SetEnergy (addr : Address) (energy : ℤ) (blockTime : UInt64) : Exec Unit :=
  update (·.setEnergy addr energy blockTime)

def GetStorage (addr : Address) (key : Bytes32) : Exec Bytes32 := do
  match ← read (·.getStorage addr key) with
  | .ok v => pure v
  | .error e => throw e

/-- A `*big.Int` read with `rlp.DecodeBytes`, or zero for an empty value. -/
def decodeBigIntOrZero (raw : List UInt8) : Except String ℤ :=
  if raw.length = 0 then .ok 0 else (decodeBytes id readBigInt raw).map Int.ofNat

/-! ### Params -/

def KeyRewardRatio : Bytes32 := BytesToBytes32 "reward-ratio".toUTF8.toList

def KeyBaseGasPrice : Bytes32 := BytesToBytes32 "base-gas-price".toUTF8.toList

def Params.Get (key : Bytes32) : Exec ℤ := DecodeStorage paramsAddress key decodeBigIntOrZero

/-! ### Energy -/

def energyAddress : Address := builtinAddress "Energy"

def totalAddSubKey : Bytes32 := Blake2b ["total-add-sub".toUTF8.toList]

structure TotalAddSub where
  TotalAdd : ℤ
  TotalSub : ℤ

def TotalAddSub.read (s : List UInt8) : Except String (TotalAddSub × List UInt8) := do
  let (c, rest) ← readList s
  let (totalAdd, c) ← field "energy.totalAddSub" (readBigInt c)
  let (totalSub, c) ← field "energy.totalAddSub" (readBigInt c)
  listEnd "energy.totalAddSub" c
  .ok (⟨totalAdd, totalSub⟩, rest)

def TotalAddSub.encode (t : TotalAddSub) : Except String (List UInt8) := do
  let totalAdd ← encodeBigInt t.TotalAdd
  let totalSub ← encodeBigInt t.TotalSub
  pure (encodeList (totalAdd ++ totalSub))

namespace Energy

variable (blockTime : UInt64)

def getTotalAddSub : Exec TotalAddSub :=
  DecodeStorage energyAddress totalAddSubKey fun raw =>
    if raw.length = 0 then .ok ⟨0, 0⟩ else decodeBytes id TotalAddSub.read raw

def setTotalAddSub (total : TotalAddSub) : Exec Unit :=
  EncodeStorage energyAddress totalAddSubKey total.encode

def Add (addr : Address) (amount : ℤ) : Exec Unit :=
  if amount = 0 then pure ()
  else do
    let eng ← GetEnergy addr blockTime
    let total ← getTotalAddSub
    setTotalAddSub { total with TotalAdd := total.TotalAdd + amount }
    SetEnergy addr (eng + amount) blockTime

def Sub (addr : Address) (amount : ℤ) : Exec Bool :=
  if amount = 0 then pure true
  else do
    let eng ← GetEnergy addr blockTime
    if eng < amount then pure false
    else do
      let total ← getTotalAddSub
      setTotalAddSub { total with TotalSub := total.TotalSub + amount }
      SetEnergy addr (eng - amount) blockTime
      pure true

end Energy

/-! ### Prototype -/

def prototypeAddress : Address := builtinAddress "Prototype"

/-- A binding of the prototype contract to the account `self`; it keeps its data in the storage
of the contract's address, under keys made from `self`. -/
structure Binding where
  self : Address

namespace Binding

open Prototype

variable (b : Binding)

def userKey (user : Address) : Bytes32 := Blake2b [b.self.bytes, user.bytes, "user".toUTF8.toList]

def creditPlanKey : Bytes32 := Blake2b [b.self.bytes, "credit-plan".toUTF8.toList]

def sponsorKey (sponsor : Address) : Bytes32 :=
  Blake2b [b.self.bytes, sponsor.bytes, "sponsor".toUTF8.toList]

def curSponsorKey : Bytes32 := Blake2b [b.self.bytes, "cur-sponsor".toUTF8.toList]

def readUserObject (s : List UInt8) : Except String (UserObject × List UInt8) := do
  let (c, rest) ← readList s
  let (usedCredit, c) ← field "prototype.userObject" (readBigInt c)
  let (blockTime, c) ← field "prototype.userObject" (readUint 64 c)
  listEnd "prototype.userObject" c
  .ok (⟨usedCredit, blockTime.toUInt64⟩, rest)

def readCreditPlan (s : List UInt8) : Except String (CreditPlan × List UInt8) := do
  let (c, rest) ← readList s
  let (credit, c) ← field "prototype.creditPlan" (readBigInt c)
  let (recoveryRate, c) ← field "prototype.creditPlan" (readBigInt c)
  listEnd "prototype.creditPlan" c
  .ok (⟨credit, recoveryRate⟩, rest)

def getUserObject (user : Address) : Exec UserObject :=
  DecodeStorage prototypeAddress (b.userKey user) fun raw =>
    if raw.length = 0 then .ok ⟨0, 0⟩ else decodeBytes id readUserObject raw

/-- An empty object is stored as nothing. -/
def setUserObject (user : Address) (uo : UserObject) : Exec Unit :=
  EncodeStorage prototypeAddress (b.userKey user)
    (if uo.isEmpty then .ok [] else do
      let usedCredit ← encodeBigInt uo.usedCredit
      pure (encodeList (usedCredit ++ encodeUint uo.blockTime)))

def getCreditPlan : Exec CreditPlan :=
  DecodeStorage prototypeAddress b.creditPlanKey fun raw =>
    if raw.length = 0 then .ok ⟨0, 0⟩ else decodeBytes id readCreditPlan raw

def UserCredit (user : Address) (blockTime : UInt64) : Exec ℤ := do
  let uo ← b.getUserObject user
  if uo.isEmpty then pure 0
  else do
    let cp ← b.getCreditPlan
    pure (uo.credit cp blockTime)

def SetUserCredit (user : Address) (credit : ℤ) (blockTime : UInt64) : Exec Unit := do
  let up ← b.getCreditPlan
  let used := up.credit - credit
  let used := if used < 0 then 0 else used
  b.setUserObject user ⟨used, blockTime⟩

def IsSponsor (sponsor : Address) : Exec Bool :=
  DecodeStorage prototypeAddress (b.sponsorKey sponsor) fun raw =>
    if raw.length = 0 then .ok false else decodeBytes id readBool raw

def CurrentSponsor : Exec Address := do
  let val ← GetStorage prototypeAddress b.curSponsorKey
  pure (BytesToAddress val.bytes)

end Binding

/-! ### They keep what is saved below the world -/

variable {S : List (Address → Plain)}

theorem keeps_decodeStorage {α : Type} (addr : Address) (key : Bytes32)
    (dec : List UInt8 → Except String α) : Keeps (Above S) (DecodeStorage addr key dec) := by
  refine (keeps_read _).bind fun raw => ?_
  cases dec raw with
  | ok a => exact keeps_pure a
  | error e => exact keeps_throw _

theorem keeps_encodeStorage (addr : Address) (key : Bytes32) (enc : Except String (List UInt8)) :
    Keeps (Above S) (EncodeStorage addr key enc) := by
  cases enc with
  | error e => exact keeps_throw _
  | ok raw =>
    refine keeps_update fun s r hr s' hs' => ?_
    obtain ⟨s₂, hs₂, h₂⟩ := hr.setRawStorage addr key raw
    obtain rfl : s' = s₂ := Option.some.inj (hs'.symm.trans hs₂)
    exact ⟨_, h₂⟩

theorem keeps_getEnergy (addr : Address) (blockTime : UInt64) :
    Keeps (Above S) (GetEnergy addr blockTime) :=
  keeps_read _

theorem keeps_setEnergy (addr : Address) (energy : ℤ) (blockTime : UInt64) :
    Keeps (Above S) (SetEnergy addr energy blockTime) := by
  refine keeps_update fun s r hr s' hs' => ?_
  obtain ⟨s₂, hs₂, h₂⟩ := hr.setEnergy addr energy blockTime
  obtain rfl : s' = s₂ := Option.some.inj (hs'.symm.trans hs₂)
  exact ⟨_, h₂⟩

theorem keeps_getStorage (addr : Address) (key : Bytes32) :
    Keeps (Above S) (GetStorage addr key) := by
  refine (keeps_read _).bind fun v => ?_
  cases v with
  | ok v => exact keeps_pure v
  | error e => exact keeps_throw _

theorem keeps_paramsGet (key : Bytes32) : Keeps (Above S) (Params.Get key) :=
  keeps_decodeStorage _ _ _

namespace Energy

theorem keeps_add (blockTime : UInt64) (addr : Address) (amount : ℤ) :
    Keeps (Above S) (Add blockTime addr amount) := by
  refine keeps_ite (fun _ => keeps_pure ()) fun _ => ?_
  refine (keeps_getEnergy addr blockTime).bind fun _ => ?_
  refine (keeps_decodeStorage _ _ _).bind fun _ => ?_
  exact (keeps_encodeStorage _ _ _).bind fun _ => keeps_setEnergy _ _ _

theorem keeps_sub (blockTime : UInt64) (addr : Address) (amount : ℤ) :
    Keeps (Above S) (Sub blockTime addr amount) := by
  refine keeps_ite (fun _ => keeps_pure true) fun _ => ?_
  refine (keeps_getEnergy addr blockTime).bind fun eng => ?_
  refine keeps_ite (fun _ => keeps_pure false) fun _ => ?_
  refine (keeps_decodeStorage _ _ _).bind fun _ => ?_
  refine (keeps_encodeStorage _ _ _).bind fun _ => ?_
  exact (keeps_setEnergy _ _ _).bind fun _ => keeps_pure true

end Energy

namespace Binding

variable (b : Binding)

theorem keeps_userCredit (user : Address) (blockTime : UInt64) :
    Keeps (Above S) (b.UserCredit user blockTime) := by
  refine (keeps_decodeStorage _ _ _).bind fun uo => ?_
  refine keeps_ite (fun _ => keeps_pure 0) fun _ => ?_
  exact (keeps_decodeStorage _ _ _).bind fun _ => keeps_pure _

theorem keeps_setUserCredit (user : Address) (credit : ℤ) (blockTime : UInt64) :
    Keeps (Above S) (b.SetUserCredit user credit blockTime) :=
  (keeps_decodeStorage _ _ _).bind fun _ => keeps_encodeStorage _ _ _

theorem keeps_isSponsor (sponsor : Address) : Keeps (Above S) (b.IsSponsor sponsor) :=
  keeps_decodeStorage _ _ _

theorem keeps_currentSponsor : Keeps (Above S) b.CurrentSponsor :=
  (keeps_getStorage _ _).bind fun _ => keeps_pure _

end Binding

end AuthorityBlock.Builtin
