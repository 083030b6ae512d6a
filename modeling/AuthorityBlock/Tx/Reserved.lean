import AuthorityBlock.Lib.RlpStream
import Mathlib

/-! The reserved fields of a transaction, `reserved` in `tx/reserved.go`: the features, then
items kept for later use, encoded as one list whose empty items at the end are trimmed away,
and decoded only when they are trimmed.

The codec is exact on its format: an encoding decodes to the value it encoded with its empty
tail trimmed (`decodeRLP_encodeRLP`), whatever is decoded re-encodes to the bytes it came from
(`encodeRLP_of_decodeRLP`), and a list ending in an empty item is refused
(`decodeRLP_not_trimmed`). -/

namespace AuthorityBlock.Tx

open Rlp

/-- `tx.reserved`. `Features` is the `uint32` bitset of `tx.Features`. -/
structure Reserved where
  Features : UInt32
  Unused : List (List UInt8)
deriving DecidableEq

def isEmptyRLPRaw (value : List UInt8) : Bool :=
  value.length = 0 || value == EmptyList || value == EmptyString

def errNotTrimmed : String := "invalid reserved fields: not trimmed"

/-- `reserved.EncodeRLP`: the features' encoding before the unused items, with the empty
items at the end popped. -/
def Reserved.EncodeRLP (r : Reserved) : List UInt8 :=
  let raws := encodeUint r.Features.toUInt64 :: r.Unused
  encodeList (raws.rdropWhile isEmptyRLPRaw).flatten

/-- `reserved.DecodeRLP` on a stream: the value and what follows its list. -/
def Reserved.DecodeRLP (s : List UInt8) : Except String (Reserved × List UInt8) :=
  match readRaws s with
  | (some err, _, _) => .error err
  | (none, raws, rest) =>
    match raws with
    | [] => .ok (⟨0, []⟩, rest)
    | raw0 :: unused =>
      if isEmptyRLPRaw ((raw0 :: unused).getLast (List.cons_ne_nil _ _)) then
        .error errNotTrimmed
      else
        match decodeBytes id (readUint 32) raw0 with
        | .error err => .error err
        | .ok feat => .ok (⟨feat.toUInt32, unused⟩, rest)

/-! ### Trimming -/

section Trim

variable {α : Type} {p : α → Bool}

lemma rdropWhile_cons (x : α) (l : List α) :
    (x :: l).rdropWhile p = if l.rdropWhile p = [] ∧ p x then [] else x :: l.rdropWhile p := by
  have hnil : (l.reverse.dropWhile p).isEmpty = true ↔ l.rdropWhile p = [] := by
    simp [List.rdropWhile]
  rw [List.rdropWhile, List.reverse_cons, List.dropWhile_append]
  by_cases hl : l.rdropWhile p = []
  · rw [if_pos (hnil.mpr hl), hl]
    by_cases hx : p x = true
    · simp [hx]
    · simp [hx]
  · rw [if_neg (mt hnil.mp hl), if_neg (fun h => hl h.1), List.reverse_append]
    rfl

lemma mem_of_mem_rdropWhile {l : List α} {x : α} (h : x ∈ l.rdropWhile p) : x ∈ l :=
  (List.rdropWhile_prefix p l).subset h

end Trim

/-! ### The features' item -/

lemma toUInt64_eq_zero_iff (f : UInt32) : f.toUInt64 = 0 ↔ f = 0 := by
  rw [← UInt64.toNat_inj, ← UInt32.toNat_inj, UInt32.toNat_toUInt64]
  rfl

lemma isEmptyRLPRaw_singleton {x : UInt8} (hx : x < 0x80) : isEmptyRLPRaw [x] = false := by
  have h80 : x ≠ 0x80 := by
    rintro rfl
    exact absurd hx (by decide)
  have hC0 : x ≠ 0xC0 := by
    rintro rfl
    exact absurd hx (by decide)
  simp [isEmptyRLPRaw, EmptyList, EmptyString, h80, hC0]

lemma isEmptyRLPRaw_of_two_le {l : List UInt8} (h : 2 ≤ l.length) : isEmptyRLPRaw l = false := by
  simp only [isEmptyRLPRaw, EmptyList, EmptyString, Bool.or_eq_false_iff, beq_eq_false_iff_ne,
    ne_eq, decide_eq_false_iff_not]
  refine ⟨⟨by omega, ?_⟩, ?_⟩ <;> rintro rfl <;> simp at h

lemma isEmptyRLPRaw_encodeUint (f : UInt32) :
    isEmptyRLPRaw (encodeUint f.toUInt64) = true ↔ f = 0 := by
  rw [← toUInt64_eq_zero_iff]
  unfold encodeUint
  split_ifs with hz hsmall
  · simp [hz, isEmptyRLPRaw, EmptyString]
  · -- one byte below 0x80, which is neither empty encoding
    have hlt : f.toUInt64.toUInt8 < 0x80 := by
      rw [UInt8.lt_iff_toNat_lt, UInt64.toNat_toUInt8]
      have := UInt64.lt_iff_toNat_lt.mp hsmall
      simp only [UInt64.reduceToNat] at this
      simp only [UInt8.reduceToNat]
      omega
    rw [isEmptyRLPRaw_singleton hlt]
    simpa using hz
  · -- a header before at least one byte
    have hne : putint f.toUInt64.toNat ≠ [] :=
      putint_ne_nil (fun h => hz (UInt64.toNat_inj.mp (by rw [h]; rfl)))
    have hpos := List.length_pos_of_ne_nil hne
    rw [isEmptyRLPRaw_of_two_le (by simp only [List.length_cons]; omega)]
    simpa using hz

lemma isItem_encodeUint (i : UInt64) : IsItem (encodeUint i) := by
  obtain ⟨k, -, hk, he⟩ := encodeUint_eq_rawOf i
  have hlen : (putint i.toNat).length < 2 ^ 64 :=
    lt_of_le_of_lt (length_putint_le (show i.toNat < 256 ^ 8 from i.toNat_lt)) (by decide)
  exact ⟨k, putint i.toNat, hk.stream, hlen, he⟩

lemma decodeBytes_encodeUint (f : UInt32) :
    decodeBytes id (readUint 32) (encodeUint f.toUInt64) = .ok f.toNat := by
  have hbits : (putint f.toUInt64.toNat).length ≤ 32 / 8 :=
    length_putint_le (by rw [UInt32.toNat_toUInt64]; exact f.toNat_lt)
  obtain ⟨k, -, hk, he⟩ := encodeUint_eq_rawOf f.toUInt64
  have hne : encodeUint f.toUInt64 ≠ [] := by
    rw [he]
    exact rawOf_ne_nil hk.stream
  have hread := readUint_encodeUint f.toUInt64 hbits []
  rw [List.append_nil, UInt32.toNat_toUInt64] at hread
  exact decodeBytes_of_read hne hread

/-! ### Decoding -/

section Decode

variable {s rest : List UInt8} {r : Reserved}

lemma decodeRLP_eq_ok_inv (h : Reserved.DecodeRLP s = .ok (r, rest)) :
    (readRaws s = (none, [], rest) ∧ r = ⟨0, []⟩) ∨
    ∃ raw0 unused n, readRaws s = (none, raw0 :: unused, rest) ∧
      isEmptyRLPRaw ((raw0 :: unused).getLast (List.cons_ne_nil _ _)) = false ∧
      decodeBytes id (readUint 32) raw0 = .ok n ∧ r = ⟨n.toUInt32, unused⟩ := by
  unfold Reserved.DecodeRLP at h
  rcases hr : readRaws s with ⟨_ | err, raws, rest'⟩
  · rw [hr] at h
    cases raws with
    | nil =>
      -- no item: no features
      simp only [Except.ok.injEq, Prod.mk.injEq] at h
      obtain ⟨rfl, rfl⟩ := h
      exact .inl ⟨rfl, rfl⟩
    | cons raw0 unused =>
      dsimp only at h
      split_ifs at h with hlast
      cases hf : decodeBytes id (readUint 32) raw0 with
      | error e =>
        rw [hf] at h
        cases h
      | ok n =>
        rw [hf, Except.ok.injEq, Prod.mk.injEq] at h
        obtain ⟨rfl, rfl⟩ := h
        exact .inr ⟨raw0, unused, n, rfl, by simpa using hlast, hf, rfl⟩
  · rw [hr] at h
    cases h

lemma encodeRLP_of_decodeRLP (h : Reserved.DecodeRLP s = .ok (r, rest)) :
    s = r.EncodeRLP ++ rest := by
  rcases decodeRLP_eq_ok_inv h with ⟨hr, rfl⟩ | ⟨raw0, unused, n, hr, hlast, hf, rfl⟩
  · rw [readRaws_sound hr]
    rfl
  · rw [readRaws_sound hr]
    obtain ⟨hbits, hraw⟩ := readUint_sound (by decide) (by decide) (decodeBytes_sound hf)
    -- the features fit their 32 bits, so they are encoded as they were read
    have hn : n < 2 ^ 32 := lt_of_length_putint_le hbits
    have hfeat : n.toUInt32.toUInt64 = n.toUInt64 := by
      rw [← UInt64.toNat_inj, UInt32.toNat_toUInt64, Nat.toUInt32_eq, UInt32.toNat_ofNat',
        Nat.mod_eq_of_lt hn, Nat.toUInt64_eq, UInt64.toNat_ofNat', Nat.mod_eq_of_lt (by omega)]
    have hself : (raw0 :: unused).rdropWhile isEmptyRLPRaw = raw0 :: unused := by
      rw [List.rdropWhile_eq_self_iff]
      intro _
      simpa using hlast
    rw [List.append_nil] at hraw
    rw [Reserved.EncodeRLP, hfeat, ← hraw, hself]

end Decode

/-! ### Encoding -/

lemma decodeRLP_encodeRLP (r : Reserved) (rest : List UInt8) (hU : ∀ u ∈ r.Unused, IsItem u)
    (hlen : r.Unused.flatten.length < 2 ^ 63) :
    Reserved.DecodeRLP (r.EncodeRLP ++ rest) =
      .ok (⟨r.Features, r.Unused.rdropWhile isEmptyRLPRaw⟩, rest) := by
  obtain ⟨raws, hraws⟩ : ∃ raws,
      (encodeUint r.Features.toUInt64 :: r.Unused).rdropWhile isEmptyRLPRaw = raws := ⟨_, rfl⟩
  have hitems : ∀ raw ∈ raws, IsItem raw := by
    intro raw hraw
    rw [← hraws] at hraw
    rcases List.mem_cons.mp (mem_of_mem_rdropWhile hraw) with rfl | hu
    · exact isItem_encodeUint _
    · exact hU raw hu
  have hsize : raws.flatten.length < 2 ^ 64 := by
    obtain ⟨t, ht⟩ := List.rdropWhile_prefix isEmptyRLPRaw
      (encodeUint r.Features.toUInt64 :: r.Unused)
    have hsum := congrArg (fun l => l.flatten.length) ht
    simp only [hraws, List.flatten_append, List.length_append, List.flatten_cons] at hsum
    have := length_encodeUint_le r.Features.toUInt64
    omega
  have hread : readRaws (r.EncodeRLP ++ rest) = (none, raws, rest) := by
    rw [Reserved.EncodeRLP, hraws]
    exact readRaws_encodeList hsize (rawItems_flatten hitems) rest
  unfold Reserved.DecodeRLP
  rw [hread]
  by_cases htrim : r.Unused.rdropWhile isEmptyRLPRaw = [] ∧
      isEmptyRLPRaw (encodeUint r.Features.toUInt64) = true
  · -- everything was trimmed, the features' item too: there were no features
    rw [rdropWhile_cons, if_pos htrim] at hraws
    subst hraws
    obtain ⟨hU0, hf0⟩ := htrim
    rw [(isEmptyRLPRaw_encodeUint _).mp hf0, hU0]
  · -- the features' item is first and the last item is not empty
    have hne : (encodeUint r.Features.toUInt64 :: r.Unused).rdropWhile isEmptyRLPRaw ≠ [] := by
      rw [rdropWhile_cons, if_neg htrim]
      exact List.cons_ne_nil _ _
    have hlast := List.rdropWhile_last_not isEmptyRLPRaw _ hne
    simp only [rdropWhile_cons, if_neg htrim] at hlast
    rw [rdropWhile_cons, if_neg htrim] at hraws
    subst hraws
    dsimp only
    rw [if_neg hlast, decodeBytes_encodeUint]
    simp

lemma decodeRLP_not_trimmed {raws : List (List UInt8)} (rest : List UInt8)
    (hitems : ∀ raw ∈ raws, IsItem raw) (hsize : raws.flatten.length < 2 ^ 64) (hne : raws ≠ [])
    (hlast : isEmptyRLPRaw (raws.getLast hne) = true) :
    Reserved.DecodeRLP (encodeList raws.flatten ++ rest) = .error errNotTrimmed := by
  unfold Reserved.DecodeRLP
  rw [readRaws_encodeList hsize (rawItems_flatten hitems) rest]
  obtain ⟨raw0, unused, rfl⟩ := List.exists_cons_of_ne_nil hne
  dsimp only
  rw [if_pos hlast]

end AuthorityBlock.Tx
