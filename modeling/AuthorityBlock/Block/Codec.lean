import AuthorityBlock.Block.Header
import AuthorityBlock.Lib.RlpStream

/-! `block.Header` on the wire: the RLP codec of `headerBody`, with the custom codecs of its
`txsRootFeatures` and `extension` fields (`block/header.go`, `block/txs_root_features.go`,
`block/extension.go`).

The body is an RLP list of its fields. The txs root is a bare 32-byte string while there are no
features, and the list [Root, Features] otherwise. The extension is left out when it is empty,
and is the list [Alpha] or [Alpha, true] otherwise.

Every header reads back from its encoding (`decodeHeader_encode`). Whatever the decoder accepts
is the header's encoding, or the same encoding with the txs root written as a list, which the
decoder also takes when Features is 0 (`decode_sound`). The extension decoder does not return
the error of reading its list: it then indexes the first of no items, and Go panics. -/

namespace AuthorityBlock.Block

/-- How a Go call ends when it does not return its value: with an error, or with a runtime
panic, which nothing between the decoder and its caller recovers. -/
inductive Failure
  | error (msg : String)
  | panic (msg : String)
deriving DecidableEq, Repr

structure Extension where
  alpha : List UInt8
  com : Bool
deriving DecidableEq

structure TxsRootFeatures where
  root : Bytes32
  features : UInt32
deriving DecidableEq

structure HeaderBody where
  parentID : Bytes32
  timestamp : UInt64
  gasLimit : UInt64
  beneficiary : Address
  gasUsed : UInt64
  totalScore : UInt64
  txsRootFeatures : TxsRootFeatures
  stateRoot : Bytes32
  receiptsRoot : Bytes32
  signature : List UInt8
  extension : Extension
deriving DecidableEq

def headerBodyType : String := "block.headerBody"

def txsRootFeaturesType : String := "block._txsRootFeatures"

def errExtensionTrimmed : String := "rlp: extension must be trimmed"

def errExtensionTooMany : String := "rlp: too much elements in extension"

/-- What Go reports when `raws[0]` indexes an empty slice. -/
def indexOutOfRange : String := "runtime error: index out of range [0] with length 0"

/-! ## Encoding -/

/-- `extension.EncodeRLP`: [Alpha, COM] when COM is set, [Alpha] when only Alpha is, and
nothing at all otherwise. -/
def Extension.encode (ex : Extension) : List UInt8 :=
  if ex.com then Rlp.encodeList (Rlp.encodeBytes ex.alpha ++ Rlp.encodeBool ex.com)
  else if ex.alpha.length ≠ 0 then Rlp.encodeList (Rlp.encodeBytes ex.alpha)
  else []

/-- The encoding of `_txsRootFeatures`, the plain struct [Root, Features]. -/
def TxsRootFeatures.encodeStruct (trf : TxsRootFeatures) : List UInt8 :=
  Rlp.encodeList (Rlp.encodeBytes trf.root.bytes ++ Rlp.encodeUint trf.features.toUInt64)

/-- `txsRootFeatures.EncodeRLP`: the bare root while there are no features. -/
def TxsRootFeatures.encode (trf : TxsRootFeatures) : List UInt8 :=
  if trf.features = 0 then Rlp.encodeBytes trf.root.bytes else trf.encodeStruct

/-- The fields of `headerBody` in order, each by its own encoder, with `trf` standing for
the encoding of the txs root. -/
def HeaderBody.encodeFieldsWith (h : HeaderBody) (trf : List UInt8) : List UInt8 :=
  Rlp.encodeBytes h.parentID.bytes ++ Rlp.encodeUint h.timestamp ++
    Rlp.encodeUint h.gasLimit ++ Rlp.encodeBytes h.beneficiary.bytes ++
    Rlp.encodeUint h.gasUsed ++ Rlp.encodeUint h.totalScore ++ trf ++
    Rlp.encodeBytes h.stateRoot.bytes ++ Rlp.encodeBytes h.receiptsRoot.bytes ++
    Rlp.encodeBytes h.signature ++ h.extension.encode

def HeaderBody.encodeFields (h : HeaderBody) : List UInt8 :=
  h.encodeFieldsWith h.txsRootFeatures.encode

/-- `Header.EncodeRLP`: the body as an RLP list. -/
def HeaderBody.encode (h : HeaderBody) : List UInt8 := Rlp.encodeList h.encodeFields

/-! ## Decoding -/

def readBytes32 (s : List UInt8) : Except String (Bytes32 × List UInt8) := do
  let (c, rest) ← Rlp.readByteArray 32 s
  .ok (⟨c.1, c.2⟩, rest)

def readAddress (s : List UInt8) : Except String (Address × List UInt8) := do
  let (c, rest) ← Rlp.readByteArray 20 s
  .ok (⟨c.1, c.2⟩, rest)

/-- `txsRootFeatures.DecodeRLP`: a list is the struct [Root, Features]; anything else is
read as the bare root, an error of the kind check included. -/
def TxsRootFeatures.decode (s : List UInt8) : Except String (TxsRootFeatures × List UInt8) :=
  match Rlp.next s with
  | .ok (.list, _, _) => do
    let (c, rest) ← Rlp.readList s
    let (root, c) ← Rlp.field txsRootFeaturesType (readBytes32 c)
    let (features, c) ← Rlp.field txsRootFeaturesType (Rlp.readUint 32 c)
    Rlp.listEnd txsRootFeaturesType c
    .ok (⟨root, features.toUInt32⟩, rest)
  | _ => do
    let (root, rest) ← readBytes32 s
    .ok (⟨root, 0⟩, rest)

/-- The items `extension.DecodeRLP` found: [Alpha] must be trimmed of an empty Alpha, and
[Alpha, COM] of a false COM. -/
def Extension.decodeRaws (raw0 : List UInt8) (more : List (List UInt8)) (rest : List UInt8) :
    Except Failure (Extension × List UInt8) := do
  let alpha ← (Rlp.decodeBytes id Rlp.readBytes raw0).mapError .error
  match more with
  | [] => if alpha.length = 0 then .error (.error errExtensionTrimmed) else .ok (⟨alpha, false⟩, rest)
  | raw1 :: _ => do
    let com ← (Rlp.decodeBytes id Rlp.readBool raw1).mapError .error
    if !com then .error (.error errExtensionTrimmed) else .ok (⟨alpha, com⟩, rest)

/-- `extension.DecodeRLP`. The end of the header's list is an absent extension. Any other
error of `s.Decode(&raws)` is dropped, and the decoder goes on with what it left in raws:
indexing `raws[0]` when there is none panics. -/
def Extension.decode (s : List UInt8) : Except Failure (Extension × List UInt8) :=
  let (err, raws, rest) := Rlp.readRaws s
  if err = some Rlp.EOL then .ok (⟨[], false⟩, s)
  else if raws.length > 2 then .error (.error errExtensionTooMany)
  else
    match raws with
    | [] => .error (.panic indexOutOfRange)
    | raw0 :: more => Extension.decodeRaws raw0 more rest

/-- A field of `headerBody`, read from what is left of its list. -/
def bodyField {α : Type} (r : Except String (α × List UInt8)) : Except Failure (α × List UInt8) :=
  (Rlp.field headerBodyType r).mapError .error

/-- `Header.DecodeRLP`: `s.Decode(&body)` on the struct `headerBody`, field by field. -/
def HeaderBody.decode (s : List UInt8) : Except Failure (HeaderBody × List UInt8) := do
  let (c, rest) ← (Rlp.readList s).mapError .error
  let (parentID, c) ← bodyField (readBytes32 c)
  let (timestamp, c) ← bodyField (Rlp.readUint 64 c)
  let (gasLimit, c) ← bodyField (Rlp.readUint 64 c)
  let (beneficiary, c) ← bodyField (readAddress c)
  let (gasUsed, c) ← bodyField (Rlp.readUint 64 c)
  let (totalScore, c) ← bodyField (Rlp.readUint 64 c)
  let (txsRootFeatures, c) ← bodyField (TxsRootFeatures.decode c)
  let (stateRoot, c) ← bodyField (readBytes32 c)
  let (receiptsRoot, c) ← bodyField (readBytes32 c)
  let (signature, c) ← bodyField (Rlp.readBytes c)
  let (extension, c) ← Extension.decode c
  (Rlp.listEnd headerBodyType c).mapError .error
  .ok (⟨parentID, timestamp.toUInt64, gasLimit.toUInt64, beneficiary, gasUsed.toUInt64,
    totalScore.toUInt64, txsRootFeatures, stateRoot, receiptsRoot, signature, extension⟩, rest)

/-- `rlp.DecodeBytes(b, &h)` into a `Header`. -/
def decodeHeader (b : List UInt8) : Except Failure HeaderBody :=
  Rlp.decodeBytes .error HeaderBody.decode b

/-! ## Reading back -/

section Fields

variable (more : List UInt8)

lemma readBytes32_encode (b : Bytes32) :
    readBytes32 (Rlp.encodeBytes b.bytes ++ more) = .ok (b, more) := by
  rw [readBytes32, Rlp.readByteArray_encodeBytes b.length_eq (by decide) more]
  rfl

lemma readAddress_encode (a : Address) :
    readAddress (Rlp.encodeBytes a.bytes ++ more) = .ok (a, more) := by
  rw [readAddress, Rlp.readByteArray_encodeBytes a.length_eq (by decide) more]
  rfl

lemma readUint64_encode (i : UInt64) :
    Rlp.readUint 64 (Rlp.encodeUint i ++ more) = .ok (i.toNat, more) :=
  Rlp.readUint_encodeUint i (Rlp.length_putint_le (show i.toNat < 256 ^ 8 from i.toNat_lt)) more

lemma readUint32_encode (i : UInt32) :
    Rlp.readUint 32 (Rlp.encodeUint i.toUInt64 ++ more) = .ok (i.toNat, more) := by
  have hlt : i.toUInt64.toNat < 256 ^ 4 := by
    rw [UInt32.toNat_toUInt64]
    exact i.toNat_lt
  rw [Rlp.readUint_encodeUint i.toUInt64 (Rlp.length_putint_le hlt) more, UInt32.toNat_toUInt64]

lemma readBytes32_sound {s rest : List UInt8} {b : Bytes32} (h : readBytes32 s = .ok (b, rest)) :
    s = Rlp.encodeBytes b.bytes ++ rest := by
  obtain ⟨⟨c, rest'⟩, hc, h⟩ := Rlp.bind_eq_ok h
  simp only [Except.ok.injEq, Prod.mk.injEq] at h
  obtain ⟨rfl, rfl⟩ := h
  exact Rlp.readByteArray_sound hc

lemma readAddress_sound {s rest : List UInt8} {a : Address} (h : readAddress s = .ok (a, rest)) :
    s = Rlp.encodeBytes a.bytes ++ rest := by
  obtain ⟨⟨c, rest'⟩, hc, h⟩ := Rlp.bind_eq_ok h
  simp only [Except.ok.injEq, Prod.mk.injEq] at h
  obtain ⟨rfl, rfl⟩ := h
  exact Rlp.readByteArray_sound hc

end Fields

section TxsRoot

variable (trf : TxsRootFeatures) (more : List UInt8)

lemma length_struct_payload :
    (Rlp.encodeBytes trf.root.bytes ++ Rlp.encodeUint trf.features.toUInt64).length < 2 ^ 64 := by
  have h₁ := Rlp.length_encodeBytes_le (show trf.root.bytes.length < 2 ^ 64 by
    rw [trf.root.length_eq]; decide)
  have h₂ := Rlp.length_encodeUint_le trf.features.toUInt64
  rw [List.length_append, trf.root.length_eq] at *
  omega

lemma TxsRootFeatures.decode_encodeStruct :
    TxsRootFeatures.decode (trf.encodeStruct ++ more) = .ok (trf, more) := by
  have hnext : Rlp.next (trf.encodeStruct ++ more) = .ok (.list, _, more) :=
    Rlp.next_rawOf (k := .list) trivial (length_struct_payload trf) more
  rw [TxsRootFeatures.decode, hnext]
  dsimp only
  rw [encodeStruct, Rlp.readList_encodeList (length_struct_payload trf)]
  have hfeatures : Rlp.readUint 32 (Rlp.encodeUint trf.features.toUInt64) =
      .ok (trf.features.toNat, []) := by
    simpa using readUint32_encode [] trf.features
  simp only [bind, Except.bind, readBytes32_encode, Rlp.field, hfeatures, Rlp.listEnd, if_true,
    Nat.toUInt32_eq, UInt32.ofNat_toNat]

lemma TxsRootFeatures.decode_encode :
    TxsRootFeatures.decode (trf.encode ++ more) = .ok (trf, more) := by
  by_cases h0 : trf.features = 0
  · -- the bare root is a byte string: the decoder reads it as a root without features
    obtain ⟨k, hk, hcanon, he⟩ := Rlp.encodeBytes_eq_rawOf trf.root.bytes
    have hnext : Rlp.next (trf.encode ++ more) = .ok (k, trf.root.bytes, more) := by
      rw [encode, if_pos h0, he]
      exact Rlp.next_rawOf hcanon.stream (by rw [trf.root.length_eq]; decide) more
    have hroot : (⟨trf.root, 0⟩ : TxsRootFeatures) = trf := by
      rw [← h0]
    rw [TxsRootFeatures.decode, hnext]
    cases k with
    | list => exact absurd rfl hk
    | byte | string =>
      dsimp only
      rw [encode, if_pos h0, readBytes32_encode]
      exact congrArg (fun t => Except.ok (t, more)) hroot
  · rw [encode, if_neg h0]
    exact decode_encodeStruct trf more

lemma TxsRootFeatures.decode_sound {s rest : List UInt8} {trf : TxsRootFeatures}
    (h : TxsRootFeatures.decode s = .ok (trf, rest)) :
    s = trf.encode ++ rest ∨ s = trf.encodeStruct ++ rest := by
  unfold TxsRootFeatures.decode at h
  split at h
  · -- the struct [Root, Features]
    obtain ⟨⟨c, rest'⟩, hl, h⟩ := Rlp.bind_eq_ok h
    obtain ⟨⟨root, c₁⟩, hr, h⟩ := Rlp.bind_eq_ok h
    obtain ⟨⟨f, c₂⟩, hf, h⟩ := Rlp.bind_eq_ok h
    obtain ⟨u, he, h⟩ := Rlp.bind_eq_ok h
    simp only [Except.ok.injEq, Prod.mk.injEq] at h
    obtain ⟨rfl, rfl⟩ := h
    obtain ⟨hf4, hc₁⟩ := Rlp.readUint_sound (by decide) (by decide) (Rlp.field_eq_ok hf)
    have hf32 : f < 2 ^ 32 := Rlp.lt_of_length_putint_le hf4
    have hf64 : f.toUInt32.toUInt64 = f.toUInt64 := by
      apply UInt64.toNat_inj.mp
      simp
      omega
    right
    rw [Rlp.readList_sound hl, readBytes32_sound (Rlp.field_eq_ok hr), hc₁,
      Rlp.listEnd_eq_ok he, List.append_nil, encodeStruct]
    dsimp only
    rw [hf64]
  · -- the bare root, with no features
    obtain ⟨⟨root, rest'⟩, hr, h⟩ := Rlp.bind_eq_ok h
    simp only [Except.ok.injEq, Prod.mk.injEq] at h
    obtain ⟨rfl, rfl⟩ := h
    left
    rw [readBytes32_sound hr, encode, if_pos rfl]

end TxsRoot

section Extension

lemma length_payload_le (payload : List UInt8) :
    payload.length ≤ (Rlp.encodeList payload).length := by
  rw [Rlp.encodeList, List.length_append]
  omega

lemma rawItems_alpha {alpha : List UInt8} (halpha : alpha.length < 2 ^ 64) (tail : List UInt8)
    (raws : List (List UInt8)) (htail : Rlp.rawItems tail = .ok raws) :
    Rlp.rawItems (Rlp.encodeBytes alpha ++ tail) = .ok (Rlp.encodeBytes alpha :: raws) := by
  obtain ⟨k, -, hk, he⟩ := Rlp.encodeBytes_eq_rawOf alpha
  rw [he]
  exact Rlp.rawItems_rawOf hk.stream halpha htail

lemma rawItems_encodeBool_true : Rlp.rawItems (Rlp.encodeBool true) = .ok [Rlp.encodeBool true] :=
  Rlp.rawItems_rawOf (k := .byte) (v := [1]) ⟨1, rfl, by decide⟩ (by decide)
    Rlp.rawItems_nil

lemma Extension.decode_encode (ex : Extension) (hlen : ex.encode.length < 2 ^ 64) :
    Extension.decode ex.encode = .ok (ex, []) := by
  obtain ⟨alpha, com⟩ := ex
  cases com with
  | true =>
    have hp := length_payload_le (Rlp.encodeBytes alpha ++ Rlp.encodeBool true)
    have hpayload : (Rlp.encodeBytes alpha ++ Rlp.encodeBool true).length < 2 ^ 64 := by
      simp only [Extension.encode, if_true] at hlen
      omega
    have halpha : alpha.length < 2 ^ 64 := by
      have := Rlp.length_le_encodeBytes alpha
      rw [List.length_append] at hpayload
      omega
    have hraws := Rlp.readRaws_encodeList hpayload
      (rawItems_alpha halpha _ _ rawItems_encodeBool_true) []
    rw [List.append_nil] at hraws
    simp only [Extension.decode, Extension.encode, if_true, hraws]
    simp [Extension.decodeRaws, bind, Except.bind, Except.mapError,
      Rlp.decodeBytes_encodeBytes halpha, Rlp.decodeBytes_encodeBool]
  | false =>
    by_cases ha : alpha.length = 0
    · -- nothing is written, and the end of the list reads back as the empty extension
      rw [List.length_eq_zero_iff.mp ha]
      rfl
    · have henc : (⟨alpha, false⟩ : Extension).encode = Rlp.encodeList (Rlp.encodeBytes alpha) := by
        rw [Extension.encode, if_neg Bool.false_ne_true, if_pos ha]
      have hp := length_payload_le (Rlp.encodeBytes alpha)
      have hpayload : (Rlp.encodeBytes alpha).length < 2 ^ 64 := by
        rw [henc] at hlen
        omega
      have halpha : alpha.length < 2 ^ 64 :=
        lt_of_le_of_lt (Rlp.length_le_encodeBytes alpha) hpayload
      have hraws := Rlp.readRaws_encodeList hpayload
        (by simpa using rawItems_alpha halpha [] [] Rlp.rawItems_nil) []
      rw [List.append_nil] at hraws
      rw [henc]
      simp only [Extension.decode, hraws]
      simp [Extension.decodeRaws, bind, Except.bind, Except.mapError,
        Rlp.decodeBytes_encodeBytes halpha, ha]

lemma Extension.decodeRaws_sound {raw0 rest rest' : List UInt8} {more : List (List UInt8)}
    {ex : Extension} (hmore : more.length ≤ 1)
    (h : Extension.decodeRaws raw0 more rest = .ok (ex, rest')) :
    ex.encode = Rlp.encodeList (raw0 :: more).flatten ∧ rest' = rest ∧ [] ∉ raw0 :: more := by
  unfold Extension.decodeRaws at h
  obtain ⟨alpha, ha, h⟩ := Rlp.bind_eq_ok h
  have hraw0 : raw0 = Rlp.encodeBytes alpha := by
    simpa using Rlp.readBytes_sound (Rlp.decodeBytes_sound (Rlp.mapError_eq_ok ha))
  have hne0 := Rlp.encodeBytes_ne_nil alpha
  cases more with
  | nil =>
    -- [Alpha]: an empty Alpha was refused
    dsimp only at h
    split_ifs at h with ha0
    simp only [Except.ok.injEq, Prod.mk.injEq] at h
    obtain ⟨rfl, rfl⟩ := h
    refine ⟨?_, rfl, by simpa [hraw0] using hne0.symm⟩
    rw [Extension.encode, if_neg Bool.false_ne_true, if_pos ha0, hraw0, List.flatten_cons,
      List.flatten_nil, List.append_nil]
  | cons raw1 more' =>
    -- [Alpha, COM]: a false COM was refused
    have hmore' : more' = [] := List.length_eq_zero_iff.mp (by simpa using hmore)
    subst hmore'
    dsimp only at h
    obtain ⟨com, hc, h⟩ := Rlp.bind_eq_ok h
    have hraw1 : raw1 = Rlp.encodeBool com := by
      simpa using Rlp.readBool_sound (Rlp.decodeBytes_sound (Rlp.mapError_eq_ok hc))
    split_ifs at h with hcom
    simp only [Except.ok.injEq, Prod.mk.injEq] at h
    obtain ⟨rfl, rfl⟩ := h
    have hcom' : com = true := by simpa using hcom
    subst hcom'
    refine ⟨?_, rfl, ?_⟩
    · rw [Extension.encode, if_pos rfl, hraw0, hraw1]
      simp
    · simp only [List.mem_cons, List.not_mem_nil, or_false, not_or]
      exact ⟨fun h => hne0 (hraw0 ▸ h.symm), fun h => by simp [hraw1, Rlp.encodeBool] at h⟩

lemma Extension.decode_sound {s rest : List UInt8} {ex : Extension}
    (h : Extension.decode s = .ok (ex, rest)) : s = ex.encode ++ rest := by
  unfold Extension.decode at h
  rcases hr : Rlp.readRaws s with ⟨err, raws, rest'⟩
  rw [hr] at h
  dsimp only at h
  split_ifs at h with hEOL hlen
  · -- the end of the list: nothing was read
    simp only [Except.ok.injEq, Prod.mk.injEq] at h
    obtain ⟨rfl, rfl⟩ := h
    rfl
  · cases raws with
    | nil => cases h
    | cons raw0 more =>
      obtain ⟨henc, rfl, hne⟩ :=
        Extension.decodeRaws_sound (by simp at hlen; omega) h
      cases err with
      | none => rw [Rlp.readRaws_sound hr, henc]
      | some e =>
        -- a dropped error leaves an empty item last, which the decoder refused
        rcases Rlp.readRaws_error hr with hnil | hlast
        · cases hnil
        · exact absurd (List.mem_of_getLast? hlast) hne

lemma Extension.decode_eq_panic {s : List UInt8} (hs : s ≠ [])
    (hitem : ∀ k c rest, Rlp.next s = .ok (k, c, rest) → k ≠ .list ∨ c = []) :
    Extension.decode s = .error (.panic indexOutOfRange) := by
  obtain ⟨e, rest, hr, he⟩ : ∃ e rest, Rlp.readRaws s = (e, [], rest) ∧ e ≠ some Rlp.EOL := by
    unfold Rlp.readRaws
    cases hn : Rlp.next s with
    | error e => exact ⟨some e, s, rfl, fun h => Rlp.next_error_EOL hn hs (Option.some_inj.mp h)⟩
    | ok r =>
      obtain ⟨k, c, rest⟩ := r
      by_cases hk : k = .list
      · have hc : c = [] := (hitem k c rest hn).resolve_left (not_not.mpr hk)
        exact ⟨none, rest, by simp [hk, hc, Rlp.rawItems_nil], by decide⟩
      · exact ⟨some Rlp.ErrExpectedList, s, by simp [hk], by decide⟩
  simp only [Extension.decode, hr, if_neg he]
  rfl

lemma Extension.decodeRaws_ne_panic {raw0 rest : List UInt8} {more : List (List UInt8)}
    {m : String} : Extension.decodeRaws raw0 more rest ≠ .error (.panic m) := by
  intro h
  unfold Extension.decodeRaws at h
  cases hd : Rlp.decodeBytes id Rlp.readBytes raw0 with
  | error e => simp [hd, Except.mapError, bind, Except.bind] at h
  | ok alpha =>
    simp only [hd, Except.mapError, bind, Except.bind] at h
    cases more with
    | nil =>
      dsimp only at h
      split_ifs at h
      cases h
    | cons raw1 more' =>
      dsimp only at h
      cases hc : Rlp.decodeBytes id Rlp.readBool raw1 with
      | error e => simp [hc] at h
      | ok com =>
        simp only [hc] at h
        split_ifs at h
        cases h

lemma Extension.decode_panic_cases {s : List UInt8} {m : String}
    (h : Extension.decode s = .error (.panic m)) :
    s ≠ [] ∧ ∀ k c rest, Rlp.next s = .ok (k, c, rest) → k ≠ .list ∨ c = [] := by
  unfold Extension.decode at h
  rcases hr : Rlp.readRaws s with ⟨err, raws, rest'⟩
  rw [hr] at h
  dsimp only at h
  split_ifs at h with hEOL hlen
  · cases h
  cases raws with
  | cons raw0 more => exact absurd h Extension.decodeRaws_ne_panic
  | nil =>
    refine ⟨?_, fun k c rest hn => ?_⟩
    · rintro rfl
      rw [Rlp.readRaws_nil] at hr
      cases hr
      exact hEOL rfl
    · -- a list leaves its items in raws, and only an empty one leaves none
      by_cases hk : k = .list
      · right
        unfold Rlp.readRaws at hr
        rw [hn] at hr
        simp only [hk, if_true] at hr
        split at hr
        · next raws' hitems =>
          simp only [Prod.mk.injEq] at hr
          obtain ⟨-, rfl, -⟩ := hr
          simpa using Rlp.rawItems_sound hitems
        · next e raws' hitems =>
          simp only [Prod.mk.injEq] at hr
          obtain ⟨-, rfl, -⟩ := hr
          have hlast := Rlp.rawItems_error hitems
          simp at hlast
      · exact .inl hk

end Extension

/-! ## Sizes -/

section Sizes

lemma length_encodeBool (b : Bool) : (Rlp.encodeBool b).length = 1 := by
  cases b <;> rfl

lemma Extension.length_encode_le (ex : Extension) (halpha : ex.alpha.length < 2 ^ 62) :
    ex.encode.length ≤ ex.alpha.length + 19 := by
  have h₁ := Rlp.length_encodeBytes_le (show ex.alpha.length < 2 ^ 64 by omega)
  have h₂ := length_encodeBool ex.com
  unfold Extension.encode
  split_ifs
  · have h₃ := Rlp.length_encodeList_le
      (c := Rlp.encodeBytes ex.alpha ++ Rlp.encodeBool ex.com) (by rw [List.length_append]; omega)
    rw [List.length_append] at h₃
    omega
  · have h₃ := Rlp.length_encodeList_le (c := Rlp.encodeBytes ex.alpha) (by omega)
    omega
  · simp

lemma TxsRootFeatures.length_encodeStruct_le (trf : TxsRootFeatures) :
    trf.encodeStruct.length ≤ 60 := by
  have h₁ := Rlp.length_encodeBytes_le (show trf.root.bytes.length < 2 ^ 64 by
    rw [trf.root.length_eq]; decide)
  have h₂ := Rlp.length_encodeUint_le trf.features.toUInt64
  have h₃ := Rlp.length_encodeList_le (length_struct_payload trf)
  rw [trf.root.length_eq] at h₁
  rw [List.length_append] at h₃
  rw [encodeStruct]
  omega

lemma TxsRootFeatures.length_encode_le (trf : TxsRootFeatures) : trf.encode.length ≤ 60 := by
  have h₁ := Rlp.length_encodeBytes_le (show trf.root.bytes.length < 2 ^ 64 by
    rw [trf.root.length_eq]; decide)
  rw [trf.root.length_eq] at h₁
  unfold encode
  split_ifs
  · omega
  · exact trf.length_encodeStruct_le

lemma HeaderBody.length_encodeFieldsWith_le (h : HeaderBody) (t : List UInt8)
    (hsig : h.signature.length < 2 ^ 62) (halpha : h.extension.alpha.length < 2 ^ 62) :
    (h.encodeFieldsWith t).length ≤ t.length + h.signature.length + h.extension.alpha.length + 250 := by
  have hb32 : ∀ b : Bytes32, (Rlp.encodeBytes b.bytes).length ≤ 41 := fun b => by
    have := Rlp.length_encodeBytes_le (show b.bytes.length < 2 ^ 64 by rw [b.length_eq]; decide)
    rw [b.length_eq] at this
    exact this
  have ha := Rlp.length_encodeBytes_le (show h.beneficiary.bytes.length < 2 ^ 64 by
    rw [h.beneficiary.length_eq]; decide)
  rw [h.beneficiary.length_eq] at ha
  have hs := Rlp.length_encodeBytes_le (show h.signature.length < 2 ^ 64 by omega)
  have he := h.extension.length_encode_le halpha
  have hu := Rlp.length_encodeUint_le
  have := hb32 h.parentID
  have := hb32 h.stateRoot
  have := hb32 h.receiptsRoot
  have := hu h.timestamp
  have := hu h.gasLimit
  have := hu h.gasUsed
  have := hu h.totalScore
  simp only [HeaderBody.encodeFieldsWith, List.length_append]
  omega

lemma length_encodeBytes32 (b : Bytes32) : (Rlp.encodeBytes b.bytes).length = 33 := by
  have hcanon : Rlp.Canonical .string b.bytes :=
    Rlp.canonical_of_length (by decide) (by rw [b.length_eq]; decide)
  rw [Rlp.encodeBytes_of_canonical (by decide) hcanon, Rlp.rawOf, Rlp.headerOf, b.length_eq,
    Rlp.puthead_of_lt (by decide), List.length_append, b.length_eq]
  rfl

lemma TxsRootFeatures.length_encodeStruct_of_zero (trf : TxsRootFeatures) (h0 : trf.features = 0) :
    trf.encodeStruct.length = trf.encode.length + 2 := by
  have hpayload : (Rlp.encodeBytes trf.root.bytes ++ Rlp.encodeUint trf.features.toUInt64).length
      = 34 := by
    rw [List.length_append, length_encodeBytes32, h0]
    rfl
  rw [encodeStruct, Rlp.encodeList, List.length_append, hpayload, Rlp.puthead_of_lt (by decide),
    encode, if_pos h0, length_encodeBytes32]
  rfl

end Sizes

/-! ## The header -/

section Header

variable (h : HeaderBody)

lemma HeaderBody.decode_encodeFieldsWith {trf : List UInt8}
    (htrf : ∀ more, TxsRootFeatures.decode (trf ++ more) = .ok (h.txsRootFeatures, more))
    (hlen : (h.encodeFieldsWith trf).length < 2 ^ 64) (rest : List UInt8) :
    HeaderBody.decode (Rlp.encodeList (h.encodeFieldsWith trf) ++ rest) = .ok (h, rest) := by
  have hsig' := Rlp.length_le_encodeBytes h.signature
  have hlens : (Rlp.encodeBytes h.signature).length < 2 ^ 64 ∧
      h.extension.encode.length < 2 ^ 64 := by
    simp only [HeaderBody.encodeFieldsWith, List.length_append] at hlen
    omega
  have hsig : h.signature.length < 2 ^ 64 := by omega
  rw [HeaderBody.decode, Rlp.readList_encodeList hlen]
  simp only [HeaderBody.encodeFieldsWith, List.append_assoc, bind, Except.bind, Except.mapError,
    bodyField, Rlp.field, readBytes32_encode, readUint64_encode, readAddress_encode, htrf,
    Rlp.readBytes_encodeBytes hsig, Extension.decode_encode _ hlens.2, Rlp.listEnd, if_true,
    Nat.toUInt64_eq, UInt64.ofNat_toNat]

lemma HeaderBody.decode_of_extension_error {trf ext : List UInt8} {f : Failure}
    (htrf : ∀ more, TxsRootFeatures.decode (trf ++ more) = .ok (h.txsRootFeatures, more))
    (hext : h.extension.encode = []) (hlen : (h.encodeFieldsWith trf ++ ext).length < 2 ^ 64)
    (he : Extension.decode ext = .error f) (rest : List UInt8) :
    HeaderBody.decode (Rlp.encodeList (h.encodeFieldsWith trf ++ ext) ++ rest) = .error f := by
  have hsig' := Rlp.length_le_encodeBytes h.signature
  have hsig : h.signature.length < 2 ^ 64 := by
    simp only [HeaderBody.encodeFieldsWith, List.length_append] at hlen
    omega
  rw [HeaderBody.decode, Rlp.readList_encodeList hlen]
  simp only [HeaderBody.encodeFieldsWith, hext, List.append_nil, List.append_assoc, bind,
    Except.bind, Except.mapError, bodyField, Rlp.field, readBytes32_encode, readUint64_encode,
    readAddress_encode, htrf, Rlp.readBytes_encodeBytes hsig, he]

lemma decodeHeader_encode (hlen : h.encodeFields.length < 2 ^ 64) :
    decodeHeader h.encode = .ok h := by
  have hread := h.decode_encodeFieldsWith h.txsRootFeatures.decode_encode hlen []
  rw [List.append_nil] at hread
  exact Rlp.decodeBytes_of_read (Rlp.encodeList_ne_nil _) hread

lemma decodeHeader_encodeStruct
    (hlen : (h.encodeFieldsWith h.txsRootFeatures.encodeStruct).length < 2 ^ 64) :
    decodeHeader (Rlp.encodeList (h.encodeFieldsWith h.txsRootFeatures.encodeStruct)) = .ok h := by
  have hread := h.decode_encodeFieldsWith h.txsRootFeatures.decode_encodeStruct hlen []
  rw [List.append_nil] at hread
  exact Rlp.decodeBytes_of_read (Rlp.encodeList_ne_nil _) hread

lemma bodyField_eq_ok {α : Type} {r : Except String (α × List UInt8)} {v : α × List UInt8}
    (h : bodyField r = .ok v) : r = .ok v :=
  Rlp.field_eq_ok (Rlp.mapError_eq_ok h)

lemma HeaderBody.decode_sound {s rest : List UInt8} {h : HeaderBody}
    (hd : HeaderBody.decode s = .ok (h, rest)) :
    ∃ trf, (trf = h.txsRootFeatures.encode ∨ trf = h.txsRootFeatures.encodeStruct) ∧
      s = Rlp.encodeList (h.encodeFieldsWith trf) ++ rest := by
  unfold HeaderBody.decode at hd
  obtain ⟨⟨c, rest'⟩, hl, hd⟩ := Rlp.bind_eq_ok hd
  obtain ⟨⟨parentID, c₁⟩, h₁, hd⟩ := Rlp.bind_eq_ok hd
  obtain ⟨⟨timestamp, c₂⟩, h₂, hd⟩ := Rlp.bind_eq_ok hd
  obtain ⟨⟨gasLimit, c₃⟩, h₃, hd⟩ := Rlp.bind_eq_ok hd
  obtain ⟨⟨beneficiary, c₄⟩, h₄, hd⟩ := Rlp.bind_eq_ok hd
  obtain ⟨⟨gasUsed, c₅⟩, h₅, hd⟩ := Rlp.bind_eq_ok hd
  obtain ⟨⟨totalScore, c₆⟩, h₆, hd⟩ := Rlp.bind_eq_ok hd
  obtain ⟨⟨trf, c₇⟩, h₇, hd⟩ := Rlp.bind_eq_ok hd
  obtain ⟨⟨stateRoot, c₈⟩, h₈, hd⟩ := Rlp.bind_eq_ok hd
  obtain ⟨⟨receiptsRoot, c₉⟩, h₉, hd⟩ := Rlp.bind_eq_ok hd
  obtain ⟨⟨signature, c₁₀⟩, h₁₀, hd⟩ := Rlp.bind_eq_ok hd
  obtain ⟨⟨extension, c₁₁⟩, h₁₁, hd⟩ := Rlp.bind_eq_ok hd
  obtain ⟨u, h₁₂, hd⟩ := Rlp.bind_eq_ok hd
  simp only [Except.ok.injEq, Prod.mk.injEq] at hd
  obtain ⟨rfl, rfl⟩ := hd
  -- each field was read from the encoding of the value it gave
  have e₀ := Rlp.readList_sound (Rlp.mapError_eq_ok hl)
  have e₁ := readBytes32_sound (bodyField_eq_ok h₁)
  have e₂ := (Rlp.readUint_sound (by decide) le_rfl (bodyField_eq_ok h₂)).2
  have e₃ := (Rlp.readUint_sound (by decide) le_rfl (bodyField_eq_ok h₃)).2
  have e₄ := readAddress_sound (bodyField_eq_ok h₄)
  have e₅ := (Rlp.readUint_sound (by decide) le_rfl (bodyField_eq_ok h₅)).2
  have e₆ := (Rlp.readUint_sound (by decide) le_rfl (bodyField_eq_ok h₆)).2
  obtain ⟨t, ht, e₇⟩ : ∃ t, (t = trf.encode ∨ t = trf.encodeStruct) ∧ c₆ = t ++ c₇ := by
    rcases TxsRootFeatures.decode_sound (bodyField_eq_ok h₇) with e | e
    · exact ⟨_, .inl rfl, e⟩
    · exact ⟨_, .inr rfl, e⟩
  have e₈ := readBytes32_sound (bodyField_eq_ok h₈)
  have e₉ := readBytes32_sound (bodyField_eq_ok h₉)
  have e₁₀ := Rlp.readBytes_sound (bodyField_eq_ok h₁₀)
  have e₁₁ := Extension.decode_sound h₁₁
  have e₁₂ := Rlp.listEnd_eq_ok (Rlp.mapError_eq_ok h₁₂)
  refine ⟨t, ht, ?_⟩
  rw [e₀, e₁, e₂, e₃, e₄, e₅, e₆, e₇, e₈, e₉, e₁₀, e₁₁, e₁₂]
  simp only [HeaderBody.encodeFieldsWith, List.append_assoc, List.append_nil]

lemma decodeHeader_sound {b : List UInt8} {h : HeaderBody} (hd : decodeHeader b = .ok h) :
    b = h.encode ∨ b = Rlp.encodeList (h.encodeFieldsWith h.txsRootFeatures.encodeStruct) := by
  obtain ⟨t, ht, hb⟩ := HeaderBody.decode_sound (Rlp.decodeBytes_sound hd)
  rw [List.append_nil] at hb
  rcases ht with rfl | rfl
  · exact .inl hb
  · exact .inr hb

lemma decodeHeader_canonical {b : List UInt8} {h : HeaderBody}
    (hf : h.txsRootFeatures.features ≠ 0) (hd : decodeHeader b = .ok h) : b = h.encode := by
  rcases decodeHeader_sound hd with hb | hb
  · exact hb
  · rw [hb, HeaderBody.encode, HeaderBody.encodeFields, TxsRootFeatures.encode, if_neg hf]

end Header

/-- A header with every field empty or zero. -/
def emptyHeader : HeaderBody :=
  ⟨Bytes32.zero, 0, 0, Address.zero, 0, 0, ⟨Bytes32.zero, 0⟩, Bytes32.zero, Bytes32.zero, [],
    ⟨[], false⟩⟩

end AuthorityBlock.Block
