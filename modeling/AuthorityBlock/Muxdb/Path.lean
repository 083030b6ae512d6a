import AuthorityBlock.Lib.ByteOrder
import AuthorityBlock.Lib.PrefixCode
import AuthorityBlock.Lib.Rlp

/-! The compact form of a trie path of `muxdb/internal/trie/util.go`. A path is a list of
nibbles; `encodePath` writes the number of its groups of four nibbles, two bytes for each
group, and then the one to three nibbles left over in a shape tagged by the high and the low
bit. The decoder below is the reading that shows the form is a prefix code. -/

namespace AuthorityBlock.Muxdb

open ByteOrder

def appendUint32 (b : List UInt8) (v : UInt32) : List UInt8 := b ++ putUint32BE v

def appendUint16 (b : List UInt8) (v : UInt16) : List UInt8 := b ++ [(v >>> 8).toUInt8, v.toUInt8]

/-- The loop of `encodePath` from the offset reached: each group of four nibbles makes two
bytes, and the `switch` on the nibbles left writes the last one to two bytes. -/
def encodeGroups (dst : List UInt8) : List UInt8 → List UInt8
  | [] => dst ++ [0]
  | [a] => dst ++ [(a <<< 3) ||| 1]
  | [a, b] =>
    let t := (a.toUInt16 <<< 4) ||| b.toUInt16
    appendUint16 dst ((0x8000 : UInt16) ||| (t <<< 7))
  | [a, b, c] =>
    let t := (a.toUInt16 <<< 8) ||| (b.toUInt16 <<< 4) ||| c.toUInt16
    appendUint16 dst ((0x8000 : UInt16) ||| (t <<< 3) ||| 1)
  | a :: b :: c :: d :: rest => encodeGroups (dst ++ [(a <<< 4) ||| b, (c <<< 4) ||| d]) rest

/-- `encodePath`; `none` is its panic on a path of more than 255 groups. -/
def encodePath (dst path : List UInt8) : Option (List UInt8) :=
  let s := path.length / 4
  -- `math.MaxUint8`
  if s > 255 then none else some (encodeGroups (dst ++ [s.toUInt8]) path)

/-- The bytes `encodePath` appends for a path it accepts. -/
def pathBytes (path : List UInt8) : List UInt8 := encodeGroups [(path.length / 4).toUInt8] path

/-- The paths of a trie: nibbles, fewer than 1024 of them. -/
def IsPath (path : List UInt8) : Prop := (∀ x ∈ path, x.toNat < 16) ∧ path.length < 1024

/-! ## Reading a path back -/

/-- The nibbles of the tail, tagged as `encodeGroups` tags them: a zero byte for none, a byte
below `0x80` for one, and two bytes with the high bit set, odd for three and even for two. -/
def decodeTail : List UInt8 → Option (List UInt8 × List UInt8)
  | [] => none
  | x :: rest =>
    if x = 0 then some ([], rest)
    else if x.toNat < 0x80 then some ([(x.toNat / 8).toUInt8], rest)
    else match rest with
      | [] => none
      | y :: rest =>
        let v := (x.toNat - 0x80) * 256 + y.toNat
        if v % 2 = 1 then
          some ([(v / 8 / 256).toUInt8, (v / 8 / 16 % 16).toUInt8, (v / 8 % 16).toUInt8], rest)
        else some ([(v / 128 / 16).toUInt8, (v / 128 % 16).toUInt8], rest)

def decodeGroups : ℕ → List UInt8 → Option (List UInt8 × List UInt8)
  | 0, s => decodeTail s
  | n + 1, x :: y :: rest =>
    (decodeGroups n rest).map fun (p, r) =>
      ([(x.toNat / 16).toUInt8, (x.toNat % 16).toUInt8, (y.toNat / 16).toUInt8,
        (y.toNat % 16).toUInt8] ++ p, r)
  | _ + 1, _ => none

def decodePath : List UInt8 → Option (List UInt8 × List UInt8)
  | [] => none
  | s :: rest => decodeGroups s.toNat rest

/-! ## The arithmetic of the bytes written -/

section Arith

lemma toNat_shiftLeft8 {a k : UInt8} (hk : k.toNat < 8) (h : a.toNat * 2 ^ k.toNat < 2 ^ 8) :
    (a <<< k).toNat = a.toNat * 2 ^ k.toNat := by
  rw [UInt8.toNat_shiftLeft, Nat.mod_eq_of_lt hk, Nat.shiftLeft_eq, Nat.mod_eq_of_lt h]

lemma toNat_shiftLeft16 {a k : UInt16} (hk : k.toNat < 16) (h : a.toNat * 2 ^ k.toNat < 2 ^ 16) :
    (a <<< k).toNat = a.toNat * 2 ^ k.toNat := by
  rw [UInt16.toNat_shiftLeft, Nat.mod_eq_of_lt hk, Nat.shiftLeft_eq, Nat.mod_eq_of_lt h]

variable {a b c d : UInt8} (ha : a.toNat < 16) (hb : b.toNat < 16) (hc : c.toNat < 16)

include ha hb in
lemma toNat_group : ((a <<< 4) ||| b).toNat = a.toNat * 16 + b.toNat := by
  rw [UInt8.toNat_or, toNat_shiftLeft8 (by decide) (by simp only [UInt8.reduceToNat]; omega)]
  simp only [UInt8.reduceToNat]
  have hor := lor_eq_add_of_dvd (x := a.toNat * 2 ^ 4) (Dvd.intro_left _ rfl) hb
  omega

include ha in
lemma toNat_tail1 : ((a <<< 3) ||| 1).toNat = a.toNat * 8 + 1 := by
  rw [UInt8.toNat_or, toNat_shiftLeft8 (by decide) (by simp only [UInt8.reduceToNat]; omega)]
  simp only [UInt8.reduceToNat]
  have hor := lor_eq_add_of_dvd (x := a.toNat * 2 ^ 3) (y := 1) (Dvd.intro_left _ rfl) (by decide)
  omega

lemma toNat_high (x : UInt16) (hx : x.toNat < 2 ^ 15) :
    ((0x8000 : UInt16) ||| x).toNat = 2 ^ 15 + x.toNat := by
  rw [UInt16.toNat_or, lor_eq_add_of_dvd (k := 15) (by decide) hx]
  rfl

lemma toNat_nibble_shiftLeft {a : UInt8} (ha : a.toNat < 16) {k : UInt16} (hk : k.toNat ≤ 12) :
    (a.toUInt16 <<< k).toNat = a.toNat * 2 ^ k.toNat := by
  have hmul : a.toNat * 2 ^ k.toNat ≤ 15 * 2 ^ 12 :=
    Nat.mul_le_mul (by omega) (Nat.pow_le_pow_right (by decide) hk)
  rw [toNat_shiftLeft16 (by omega) (by rw [UInt8.toNat_toUInt16]; omega), UInt8.toNat_toUInt16]

include ha hb in
lemma toNat_tail2 :
    ((0x8000 : UInt16) ||| (((a.toUInt16 <<< 4) ||| b.toUInt16) <<< 7)).toNat =
      2 ^ 15 + (a.toNat * 16 + b.toNat) * 128 := by
  have ht : ((a.toUInt16 <<< 4) ||| b.toUInt16).toNat = a.toNat * 16 + b.toNat := by
    rw [UInt16.toNat_or, toNat_nibble_shiftLeft ha (by decide), UInt8.toNat_toUInt16]
    simp only [UInt16.reduceToNat]
    have hor := lor_eq_add_of_dvd (x := a.toNat * 2 ^ 4) (Dvd.intro_left _ rfl) hb
    omega
  have hs : (((a.toUInt16 <<< 4) ||| b.toUInt16) <<< 7).toNat =
      (a.toNat * 16 + b.toNat) * 128 := by
    rw [toNat_shiftLeft16 (by decide) (by simp only [UInt16.reduceToNat, ht]; omega), ht]
    rfl
  rw [toNat_high _ (by rw [hs]; omega), hs]

include ha hb hc in
lemma toNat_tail3 :
    ((0x8000 : UInt16) ||| (((a.toUInt16 <<< 8) ||| (b.toUInt16 <<< 4) ||| c.toUInt16) <<< 3) |||
      1).toNat = 2 ^ 15 + (a.toNat * 256 + b.toNat * 16 + c.toNat) * 8 + 1 := by
  -- the three nibbles sit side by side, then shift past the tag bit
  have hab : ((a.toUInt16 <<< 8) ||| (b.toUInt16 <<< 4)).toNat =
      a.toNat * 256 + b.toNat * 16 := by
    rw [UInt16.toNat_or, toNat_nibble_shiftLeft ha (by decide),
      toNat_nibble_shiftLeft hb (by decide)]
    simp only [UInt16.reduceToNat]
    rw [lor_eq_add_of_dvd (k := 8) (Dvd.intro_left _ rfl) (by omega)]
    rfl
  have ht : ((a.toUInt16 <<< 8) ||| (b.toUInt16 <<< 4) ||| c.toUInt16).toNat =
      a.toNat * 256 + b.toNat * 16 + c.toNat := by
    rw [UInt16.toNat_or, hab, UInt8.toNat_toUInt16,
      lor_eq_add_of_dvd (k := 4) ⟨a.toNat * 16 + b.toNat, by omega⟩ hc]
  have hs : (((a.toUInt16 <<< 8) ||| (b.toUInt16 <<< 4) ||| c.toUInt16) <<< 3).toNat =
      (a.toNat * 256 + b.toNat * 16 + c.toNat) * 8 := by
    rw [toNat_shiftLeft16 (by decide) (by simp only [UInt16.reduceToNat, ht]; omega), ht]
    rfl
  rw [UInt16.toNat_or, toNat_high _ (by rw [hs]; omega), hs,
    lor_eq_add_of_dvd (k := 1) ⟨2 ^ 14 + (a.toNat * 256 + b.toNat * 16 + c.toNat) * 4, by omega⟩
      (by decide)]
  rfl

end Arith

/-! ## The round trip -/

lemma encodeGroups_append : ∀ (dst p : List UInt8), encodeGroups dst p = dst ++ encodeGroups [] p
  | _, [] | _, [_] => by simp [encodeGroups]
  | _, [_, _] | _, [_, _, _] => by simp [encodeGroups, appendUint16]
  | dst, a :: b :: c :: d :: rest => by
    rw [encodeGroups, encodeGroups, List.nil_append, encodeGroups_append _ rest,
      encodeGroups_append [(a <<< 4) ||| b, (c <<< 4) ||| d] rest, List.append_assoc]

lemma encodePath_of_isPath {path : List UInt8} (hp : IsPath path) (dst : List UInt8) :
    encodePath dst path = some (dst ++ pathBytes path) := by
  rw [encodePath, if_neg (by have := hp.2; omega), pathBytes, encodeGroups_append,
    encodeGroups_append [_], List.append_assoc, List.singleton_append]

lemma toUInt8_of_toNat {x : UInt8} {n : ℕ} (h : n = x.toNat) : n.toUInt8 = x := by
  rw [h, Nat.toUInt8_eq, UInt8.ofNat_toNat]

lemma toNat_high_byte (v : UInt16) : (v >>> 8).toUInt8.toNat = v.toNat / 256 := by
  have := v.toNat_lt
  rw [UInt16.toNat_toUInt8, UInt16.toNat_shiftRight, Nat.shiftRight_eq_div_pow]
  simp only [UInt16.reduceToNat, Nat.reduceMod]
  omega

lemma toNat_low_byte (v : UInt16) : v.toUInt8.toNat = v.toNat % 256 := UInt16.toNat_toUInt8 v

lemma decodeTail_encodeGroups {p : List UInt8} (hp : ∀ x ∈ p, x.toNat < 16) (hlen : p.length < 4)
    (rest : List UInt8) : decodeTail (encodeGroups [] p ++ rest) = some (p, rest) := by
  match p, hlen with
  | [], _ => rfl
  | [a], _ =>
    have ha := hp a (by simp)
    have hx := toNat_tail1 ha
    have hx0 : (a <<< 3) ||| 1 ≠ 0 := fun h => by rw [h] at hx; simp at hx
    simp only [encodeGroups, List.nil_append, List.singleton_append, decodeTail, if_neg hx0,
      hx, if_pos (show a.toNat * 8 + 1 < 0x80 by omega)]
    simp only [Option.some.injEq, Prod.mk.injEq, List.cons.injEq, and_true]
    exact toUInt8_of_toNat (by omega)
  | [a, b], _ =>
    have ha := hp a (by simp)
    have hb := hp b (by simp)
    -- the high byte carries the tag bit, the low bit of the pair is clear
    have hv := toNat_tail2 ha hb
    have hhi := toNat_high_byte ((0x8000 : UInt16) ||| (((a.toUInt16 <<< 4) ||| b.toUInt16) <<< 7))
    have hlo := toNat_low_byte ((0x8000 : UInt16) ||| (((a.toUInt16 <<< 4) ||| b.toUInt16) <<< 7))
    rw [hv] at hhi hlo
    simp only [encodeGroups, appendUint16, List.nil_append, List.cons_append, decodeTail]
    rw [if_neg (fun h => by rw [h] at hhi; simp at hhi; omega), if_neg (by omega), hhi, hlo,
      if_neg (by omega)]
    simp only [Option.some.injEq, Prod.mk.injEq, List.cons.injEq, and_true]
    exact ⟨toUInt8_of_toNat (by omega), toUInt8_of_toNat (by omega)⟩
  | [a, b, c], _ =>
    have ha := hp a (by simp)
    have hb := hp b (by simp)
    have hc := hp c (by simp)
    -- the high byte carries the tag bit, the low bit of the pair is set
    have hv := toNat_tail3 ha hb hc
    have hhi := toNat_high_byte ((0x8000 : UInt16) |||
      (((a.toUInt16 <<< 8) ||| (b.toUInt16 <<< 4) ||| c.toUInt16) <<< 3) ||| 1)
    have hlo := toNat_low_byte ((0x8000 : UInt16) |||
      (((a.toUInt16 <<< 8) ||| (b.toUInt16 <<< 4) ||| c.toUInt16) <<< 3) ||| 1)
    rw [hv] at hhi hlo
    simp only [encodeGroups, appendUint16, List.nil_append, List.cons_append, decodeTail]
    rw [if_neg (fun h => by rw [h] at hhi; simp at hhi; omega), if_neg (by omega), hhi, hlo,
      if_pos (by omega)]
    simp only [Option.some.injEq, Prod.mk.injEq, List.cons.injEq, and_true]
    exact ⟨toUInt8_of_toNat (by omega), toUInt8_of_toNat (by omega), toUInt8_of_toNat (by omega)⟩

lemma decodeGroups_encodeGroups : ∀ (p : List UInt8), (∀ x ∈ p, x.toNat < 16) →
    ∀ rest, decodeGroups (p.length / 4) (encodeGroups [] p ++ rest) = some (p, rest)
  | [], hp, rest | [_], hp, rest | [_, _], hp, rest | [_, _, _], hp, rest => by
    rw [Nat.div_eq_of_lt (by simp)]
    exact decodeTail_encodeGroups hp (by simp) rest
  | a :: b :: c :: d :: p, hp, rest => by
    have ha := hp a (by simp)
    have hb := hp b (by simp)
    have hc := hp c (by simp)
    have hd := hp d (by simp)
    have hab := toNat_group ha hb
    have hcd := toNat_group hc hd
    have hlen : (a :: b :: c :: d :: p).length / 4 = p.length / 4 + 1 := by simp; omega
    rw [hlen, encodeGroups, encodeGroups_append, List.nil_append, List.append_assoc,
      List.cons_append, List.cons_append, List.nil_append, decodeGroups,
      decodeGroups_encodeGroups p (fun x hx => hp x (by simp [hx])) rest, Option.map_some, hab, hcd]
    simp only [Option.some.injEq, Prod.mk.injEq, List.cons_append, List.nil_append,
      List.cons.injEq, and_true]
    exact ⟨toUInt8_of_toNat (by omega), toUInt8_of_toNat (by omega), toUInt8_of_toNat (by omega),
      toUInt8_of_toNat (by omega)⟩

lemma reads_pathBytes : PrefixCode.Reads pathBytes decodePath IsPath := by
  intro p hp rest
  have hs : ((p.length / 4).toUInt8).toNat = p.length / 4 := by
    rw [Nat.toUInt8_eq, UInt8.toNat_ofNat', Nat.mod_eq_of_lt (by have := hp.2; omega)]
  rw [pathBytes, encodeGroups_append, List.append_assoc, List.singleton_append, decodePath, hs,
    decodeGroups_encodeGroups p hp.1 rest]

end AuthorityBlock.Muxdb
