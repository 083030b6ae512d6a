import Mathlib

/-! The single-value layer of RLP: the header of a byte string, and the split of an encoded
value into its kind, its content and what follows it, with the canonical-size checks of the
decoder.

The splitter and the header writer are inverse on canonical items: `split_rawOf` reads back
every item a header was written for, and `split_sound` says that whatever the splitter accepts
was written that way, so that an item has exactly one accepted encoding. The stream decoder reads
headers without the splitter's single-byte check (`streamKind_of_readKind`,
`readKind_of_streamKind`). -/

namespace Rlp

inductive Kind
  | byte
  | string
  | list
deriving DecidableEq, Repr

def ErrCanonSize : String := "rlp: non-canonical size information"

def ErrValueTooLarge : String := "rlp: value size exceeds available input length"

def ErrUnexpectedEOF : String := "unexpected EOF"

def beUint (b : List UInt8) : ℕ := b.foldl (fun acc x => acc * 256 + x.toNat) 0

-- a size of its own is only written for contents of 56 bytes or more, without leading zeros
def readSize (b : List UInt8) (slen : ℕ) : Except String ℕ :=
  if b.length < slen then .error ErrUnexpectedEOF
  else
    let s := beUint (b.take slen)
    if s < 56 ∨ b.head? = some 0 then .error ErrCanonSize else .ok s

/-- The kind, tag size and content size of the value at the front of `buf`. -/
def readKind (buf : List UInt8) : Except String (Kind × ℕ × ℕ) :=
  match buf with
  | [] => .error ErrUnexpectedEOF
  | b :: rest =>
    let header : Except String (Kind × ℕ × ℕ) :=
      if b < 0x80 then .ok (.byte, 0, 1)
      else if b < 0xB8 then
        -- a one-byte string below 0x80 should have been written as the byte itself
        if (b - 0x80).toNat = 1 ∧ rest.head?.any (· < 128) then .error ErrCanonSize
        else .ok (.string, 1, (b - 0x80).toNat)
      else if b < 0xC0 then
        (readSize rest (b - 0xB7).toNat).map fun size => (.string, (b - 0xB7).toNat + 1, size)
      else if b < 0xF8 then .ok (.list, 1, (b - 0xC0).toNat)
      else (readSize rest (b - 0xF7).toNat).map fun size => (.list, (b - 0xF7).toNat + 1, size)
    header.bind fun (k, tagsize, contentsize) =>
      if contentsize > buf.length - tagsize then .error ErrValueTooLarge
      else .ok (k, tagsize, contentsize)

def split (b : List UInt8) : Except String (Kind × List UInt8 × List UInt8) :=
  (readKind b).map fun (k, ts, cs) => (k, (b.drop ts).take cs, b.drop (ts + cs))

/-- The big-endian bytes of a size, without leading zeros. -/
def putint (i : ℕ) : List UInt8 := (Nat.digits 256 i).reverse.map Nat.toUInt8

/-- `rlp.EmptyString`, the encoding of the empty string. -/
def EmptyString : List UInt8 := [0x80]

/-- `rlp.EmptyList`, the encoding of the empty list. -/
def EmptyList : List UInt8 := [0xC0]

/-- The encoding of an unsigned integer: zero is the empty string, a value below 0x80 stands
for itself. -/
def encodeUint (i : UInt64) : List UInt8 :=
  if i = 0 then [0x80]
  else if i < 128 then [i.toUInt8]
  else (0x80 + (putint i.toNat).length.toUInt8) :: putint i.toNat

/-- The encoding of a byte string: a byte below 0x80 stands for itself. -/
def encodeBytes (b : List UInt8) : List UInt8 :=
  match b with
  | [x] => if x ≤ 0x7F then [x] else [0x81, x]
  | _ =>
    if b.length < 56 then (0x80 + b.length.toUInt8) :: b
    else (0xB7 + (putint b.length).length.toUInt8) :: putint b.length ++ b

lemma readKind_short_string {n : ℕ} (hn : n < 56) (hn1 : n ≠ 1) (rest : List UInt8)
    (hlen : rest.length = n) :
    readKind ((0x80 + n.toUInt8) :: rest) = .ok (.string, 1, n) := by
  have h128 : (0x80 : UInt8).toNat = 128 := by decide
  have hb : (0x80 + n.toUInt8 : UInt8).toNat = 128 + n := by
    rw [UInt8.toNat_add, h128, Nat.toUInt8_eq, UInt8.toNat_ofNat', Nat.mod_eq_of_lt (by omega)]
    omega
  have hsize : (0x80 + n.toUInt8 - 0x80 : UInt8).toNat = n := by
    rw [UInt8.toNat_sub_of_le _ _ (UInt8.le_iff_toNat_le.mpr (by omega)), hb, h128]
    omega
  have h80 : ¬ (0x80 + n.toUInt8 : UInt8) < 0x80 := by
    rw [UInt8.lt_iff_toNat_lt, hb, h128]
    omega
  have hB8 : (0x80 + n.toUInt8 : UInt8) < 0xB8 := by
    rw [UInt8.lt_iff_toNat_lt, hb]
    change 128 + n < 184
    omega
  simp only [readKind, if_neg h80, if_pos hB8, hsize, hn1, false_and, if_false, Except.bind,
    List.length_cons, hlen]
  rw [if_neg (by omega)]

lemma split_encodeBytes {b : List UInt8} (h : b.length < 56) :
    ∃ k, k ≠ .list ∧ split (encodeBytes b) = .ok (k, b, []) := by
  match b, h with
  | [x], _ =>
    by_cases hx : x ≤ 0x7F
    · have hx' : x < 0x80 := by
        rw [UInt8.lt_iff_toNat_lt]
        rw [UInt8.le_iff_toNat_le] at hx
        change x.toNat < 128
        change x.toNat ≤ 127 at hx
        omega
      refine ⟨.byte, by decide, ?_⟩
      simp [encodeBytes, hx, split, readKind, hx', Except.bind, Except.map]
    · have hx' : ¬ x < 128 := by
        rw [UInt8.lt_iff_toNat_lt]
        rw [UInt8.le_iff_toNat_le] at hx
        change ¬ x.toNat < 128
        change ¬ x.toNat ≤ 127 at hx
        omega
      refine ⟨.string, by decide, ?_⟩
      simp [encodeBytes, hx, split, readKind, hx', Except.bind, Except.map]
  | [], _ =>
    refine ⟨.string, by decide, ?_⟩
    simp [encodeBytes, split, readKind, Except.bind, Except.map]
  | x :: y :: rest, h =>
    refine ⟨.string, by decide, ?_⟩
    have henc : encodeBytes (x :: y :: rest) =
        (0x80 + (x :: y :: rest).length.toUInt8) :: x :: y :: rest := if_pos h
    rw [split, henc, readKind_short_string h (by simp) _ rfl]
    simp only [Except.map, List.drop_one, List.tail_cons, List.length_cons]
    rw [List.drop_eq_nil_of_le (by simp only [List.length_cons]; omega),
      List.take_of_length_le (by simp only [List.length_cons]; omega)]

/-! ## Sizes

A size is written big-endian without leading zeros. -/

section Sizes

lemma beUint_append_singleton (l : List UInt8) (a : UInt8) :
    beUint (l ++ [a]) = beUint l * 256 + a.toNat := by
  simp [beUint, List.foldl_append]

lemma beUint_reverse (l : List UInt8) :
    beUint l.reverse = Nat.ofDigits 256 (l.map UInt8.toNat) := by
  induction l with
  | nil => rfl
  | cons a l ih =>
    rw [List.reverse_cons, beUint_append_singleton, ih, List.map_cons, Nat.ofDigits_cons]
    omega

lemma toNat_toUInt8_of_lt {d : ℕ} (h : d < 256) : d.toUInt8.toNat = d := by
  rw [Nat.toUInt8_eq, UInt8.toNat_ofNat', Nat.mod_eq_of_lt h]

lemma putint_eq (n : ℕ) : putint n = ((Nat.digits 256 n).map Nat.toUInt8).reverse := by
  rw [putint, List.map_reverse]

lemma beUint_putint (n : ℕ) : beUint (putint n) = n := by
  have hmap : ((Nat.digits 256 n).map Nat.toUInt8).map UInt8.toNat = Nat.digits 256 n := by
    rw [List.map_map]
    conv_rhs => rw [← List.map_id (Nat.digits 256 n)]
    exact List.map_congr_left fun d hd =>
      toNat_toUInt8_of_lt (Nat.digits_lt_base (by decide) hd)
  rw [putint_eq, beUint_reverse, hmap, Nat.ofDigits_digits]

lemma length_putint_le {n k : ℕ} (h : n < 256 ^ k) : (putint n).length ≤ k := by
  rw [putint, List.length_map, List.length_reverse]
  exact (Nat.digits_length_le_iff (by decide) n).mpr h

lemma length_putint_pos {n : ℕ} (h : n ≠ 0) : 0 < (putint n).length := by
  rw [putint, List.length_map, List.length_reverse]
  exact List.length_pos_of_ne_nil (Nat.digits_ne_nil_iff_ne_zero.mpr h)

lemma putint_of_lt {n : ℕ} (h0 : n ≠ 0) (h : n < 256) : putint n = [n.toUInt8] := by
  rw [putint, Nat.digits_of_lt 256 n h0 h]
  rfl

lemma putint_of_ne_zero {n : ℕ} (h : n ≠ 0) : putint n = putint (n / 256) ++ [n.toUInt8] := by
  have hlow : (n % 256).toUInt8 = n.toUInt8 := by
    rw [Nat.toUInt8_eq, Nat.toUInt8_eq, UInt8.ofNat_mod_size]
  rw [putint, Nat.digits_def' (by decide) (Nat.pos_of_ne_zero h), List.reverse_cons,
    List.map_append, List.map_singleton, hlow]
  rfl

lemma head?_putint_ne_zero (n : ℕ) : (putint n).head? ≠ some 0 := by
  rw [putint_eq, List.head?_reverse, List.getLast?_map]
  intro h
  obtain ⟨d, hd, hd0⟩ := Option.map_eq_some_iff.mp h
  have hn : n ≠ 0 := by
    rintro rfl
    simp at hd
  have hlast := Nat.getLast_digit_ne_zero 256 hn
  rw [List.getLast?_eq_some_getLast (Nat.digits_ne_nil_iff_ne_zero.mpr hn), Option.some_inj] at hd
  have hlt : d < 256 := Nat.digits_lt_base (by decide) (hd ▸ List.getLast_mem _)
  have hd0' := congrArg UInt8.toNat hd0
  rw [toNat_toUInt8_of_lt hlt] at hd0'
  exact hlast (hd.trans hd0')

lemma putint_beUint {bs : List UInt8} (h : bs.head? ≠ some 0) : putint (beUint bs) = bs := by
  set L := bs.reverse.map UInt8.toNat with hL
  have hlt : ∀ d ∈ L, d < 256 := by
    intro d hd
    obtain ⟨x, -, rfl⟩ := List.mem_map.mp hd
    exact UInt8.toNat_lt x
  have hlast : ∀ hne : L ≠ [], L.getLast hne ≠ 0 := by
    intro hne
    cases bs with
    | nil => exact absurd rfl hne
    | cons a t =>
      have ha : a ≠ 0 := fun ha => h (by rw [ha]; rfl)
      simpa [hL, List.getLast_map] using fun h0 => ha (UInt8.toNat_inj.mp h0)
  have hdig : Nat.digits 256 (beUint bs) = L := by
    rw [← List.reverse_reverse bs, beUint_reverse]
    exact Nat.digits_ofDigits 256 (by decide) L hlt hlast
  rw [putint, hdig, hL, List.map_reverse, List.map_map, List.map_reverse, List.reverse_reverse]
  conv_rhs => rw [← List.map_id bs]
  exact List.map_congr_left fun x _ => UInt8.ofNat_toNat

lemma readSize_putint {n : ℕ} (h56 : 56 ≤ n) (rest : List UInt8) :
    readSize (putint n ++ rest) (putint n).length = .ok n := by
  have hne : (putint n).head? ≠ some 0 := head?_putint_ne_zero n
  have hpos := length_putint_pos (show n ≠ 0 by omega)
  rw [readSize, if_neg (by simp), List.take_left' rfl, beUint_putint,
    List.head?_append_of_ne_nil _ (List.ne_nil_of_length_pos hpos)]
  exact if_neg fun h => h.elim (by omega) hne

lemma readSize_sound {rest : List UInt8} {L n : ℕ} (h : readSize rest L = .ok n) :
    L ≤ rest.length ∧ 56 ≤ n ∧ rest.take L = putint n := by
  simp only [readSize] at h
  split_ifs at h with h1 h2
  simp only [Except.ok.injEq] at h
  subst h
  have hL : L ≠ 0 := by
    rintro rfl
    exact h2 (Or.inl (by simp [beUint]))
  refine ⟨by omega, by omega, (putint_beUint ?_).symm⟩
  rw [List.head?_take, if_neg hL]
  exact fun h => h2 (Or.inr h)

end Sizes

/-! ## Headers -/

/-- `puthead`: the header of a string (tags 0x80 and 0xB7) or a list (tags 0xC0 and 0xF7)
whose content is `size` bytes long. -/
def puthead (smalltag largetag : UInt8) (size : ℕ) : List UInt8 :=
  if size < 56 then [smalltag + size.toUInt8]
  else (largetag + (putint size).length.toUInt8) :: putint size

/-- The header in front of an item's content; a single byte has none. -/
def headerOf : Kind → ℕ → List UInt8
  | .byte, _ => []
  | .string, size => puthead 0x80 0xB7 size
  | .list, size => puthead 0xC0 0xF7 size

/-- An item with its header, as `Stream.Raw` rebuilds it from the kind and the content. -/
def rawOf (k : Kind) (c : List UInt8) : List UInt8 := headerOf k c.length ++ c

/-- The items the splitter accepts: a byte below 0x80 only ever stands for itself. -/
def Canonical : Kind → List UInt8 → Prop
  | .byte, c => ∃ x, c = [x] ∧ x < 0x80
  | .string, c => ∀ x, c = [x] → 0x80 ≤ x
  | .list, _ => True

/-- The items the stream reads: a byte below 0x80 stands for itself, and a string or a list
under any header, a one-byte string below 0x80 included. -/
def StreamCanonical : Kind → List UInt8 → Prop
  | .byte, c => ∃ x, c = [x] ∧ x < 0x80
  | .string, _ => True
  | .list, _ => True

lemma Canonical.stream {k : Kind} {c : List UInt8} (h : Canonical k c) : StreamCanonical k c := by
  cases k with
  | byte => exact h
  | string | list => trivial

/-- The encoding of a list whose encoded elements are `payload`. -/
def encodeList (payload : List UInt8) : List UInt8 := puthead 0xC0 0xF7 payload.length ++ payload

/-- The encoding of a bool: 0x01, or the empty string for false. -/
def encodeBool (b : Bool) : List UInt8 := if b then [0x01] else [0x80]

lemma puthead_of_lt {st lt : UInt8} {n : ℕ} (h : n < 56) : puthead st lt n = [st + n.toUInt8] :=
  if_pos h

lemma puthead_of_le {st lt : UInt8} {n : ℕ} (h : 56 ≤ n) :
    puthead st lt n = (lt + (putint n).length.toUInt8) :: putint n :=
  if_neg (by omega)

lemma toNat_add_toUInt8 {t : UInt8} {n : ℕ} (h : t.toNat + n < 256) :
    (t + n.toUInt8).toNat = t.toNat + n := by
  rw [UInt8.toNat_add, Nat.toUInt8_eq, UInt8.toNat_ofNat']
  omega

lemma add_toNat_sub (t b : UInt8) : t + (b - t).toNat.toUInt8 = b := by
  rw [Nat.toUInt8_eq, UInt8.ofNat_toNat, UInt8.add_comm, UInt8.sub_add_cancel]

lemma toNat_sub_of_not_lt {b t : UInt8} (h : ¬ b < t) : (b - t).toNat = b.toNat - t.toNat :=
  UInt8.toNat_sub_of_le _ _ (UInt8.le_iff_toNat_le.mpr (by rw [UInt8.lt_iff_toNat_lt] at h; omega))

lemma header_toNat {t : UInt8} {n : ℕ} (h : t.toNat + n < 256) :
    (t + n.toUInt8).toNat = t.toNat + n ∧ (t + n.toUInt8 - t).toNat = n := by
  refine ⟨toNat_add_toUInt8 h, ?_⟩
  rw [UInt8.add_comm t, UInt8.add_sub_cancel, Nat.toUInt8_eq, UInt8.toNat_ofNat',
    Nat.mod_eq_of_lt (by omega)]

lemma take_long_header {t b : UInt8} {rest : List UInt8} {n : ℕ}
    (hsize : readSize rest (b - t).toNat = .ok n) :
    (b :: rest).take ((b - t).toNat + 1) = (t + (putint n).length.toUInt8) :: putint n := by
  obtain ⟨hL, -, htake⟩ := readSize_sound hsize
  have hlen : (putint n).length = (b - t).toNat := by
    rw [← htake, List.length_take]
    omega
  rw [List.take_succ_cons, htake, hlen, add_toNat_sub]

lemma canonical_of_length {k : Kind} {c : List UInt8} (hk : k ≠ .byte) (h : c.length ≠ 1) :
    Canonical k c := by
  cases k with
  | byte => exact absurd rfl hk
  | string =>
    rintro x rfl
    exact absurd rfl h
  | list => trivial

lemma rawOf_ne_nil {k : Kind} {c : List UInt8} (hk : StreamCanonical k c) : rawOf k c ≠ [] := by
  cases k with
  | byte =>
    obtain ⟨x, rfl, -⟩ := hk
    simp [rawOf]
  | string => simp [rawOf, headerOf, puthead]; split_ifs <;> simp
  | list => simp [rawOf, headerOf, puthead]; split_ifs <;> simp

lemma length_puthead_le (st lt : UInt8) {n : ℕ} (hn : n < 2 ^ 64) :
    (puthead st lt n).length ≤ 9 := by
  have hL := length_putint_le (show n < 256 ^ 8 from hn)
  unfold puthead
  split_ifs
  · simp
  · simp only [List.length_cons]
    omega

lemma length_headerOf_le (k : Kind) {n : ℕ} (hn : n < 2 ^ 64) : (headerOf k n).length ≤ 9 := by
  cases k with
  | byte => simp [headerOf]
  | string => exact length_puthead_le _ _ hn
  | list => exact length_puthead_le _ _ hn

/-! ## Splitting -/

section Split

variable {s : List UInt8} {k : Kind} {ts cs : ℕ}

lemma readKind_sound (h : readKind s = .ok (k, ts, cs)) :
    ts + cs ≤ s.length ∧ s.take ts = headerOf k cs ∧ Canonical k ((s.drop ts).take cs) := by
  match s with
  | [] => simp [readKind] at h
  | b :: rest =>
  simp only [readKind] at h
  split_ifs at h with h1 h2 h3 h4 h5
  all_goals simp only [Except.bind, Except.map] at h
  · -- a single byte below 0x80
    split_ifs at h with h6
    simp only [Except.ok.injEq, Prod.mk.injEq] at h
    obtain ⟨rfl, rfl, rfl⟩ := h
    exact ⟨by simp, rfl, ⟨b, by simp, h1⟩⟩
  · cases h
  · -- a short string: a one-byte string below 0x80 was refused
    split_ifs at h with h6
    simp only [Except.ok.injEq, Prod.mk.injEq] at h
    obtain ⟨rfl, rfl, rfl⟩ := h
    have hsub := toNat_sub_of_not_lt h1
    simp only [UInt8.lt_iff_toNat_lt, UInt8.reduceToNat] at h1 h2
    simp only [List.length_cons] at h6
    refine ⟨by simp; omega, ?_, ?_⟩
    · rw [headerOf, puthead_of_lt (by simp only [hsub, UInt8.reduceToNat]; omega), add_toNat_sub]
      rfl
    · rintro x hx
      have hone : (b - 128).toNat = 1 := by
        have hlen := congrArg List.length hx
        simp only [List.drop_one, List.tail_cons, List.length_take, List.length_singleton] at hlen
        omega
      rw [List.drop_one, List.tail_cons, hone] at hx
      obtain ⟨t, rfl⟩ : ∃ t, rest = x :: t := by
        cases rest with
        | nil => simp at hx
        | cons y t =>
          simp only [List.take_succ_cons, List.take_zero, List.cons.injEq, and_true] at hx
          exact ⟨t, by rw [hx]⟩
      simp only [hone, List.head?_cons, Option.any_some, decide_eq_true_eq, true_and] at h3
      exact UInt8.not_lt.mp h3
  · -- a long string
    cases hs : readSize rest (b - 183).toNat with
    | error e => simp [hs] at h
    | ok n =>
      simp only [hs] at h
      split_ifs at h with h6
      simp only [Except.ok.injEq, Prod.mk.injEq] at h
      obtain ⟨rfl, rfl, rfl⟩ := h
      have h56 := (readSize_sound hs).2.1
      simp only [List.length_cons] at h6
      refine ⟨by simp; omega, ?_, canonical_of_length (by decide) ?_⟩
      · rw [headerOf, puthead_of_le h56]
        exact take_long_header hs
      · simp only [List.length_take, List.length_drop, List.length_cons]
        omega
  · -- a short list
    split_ifs at h with h6
    simp only [Except.ok.injEq, Prod.mk.injEq] at h
    obtain ⟨rfl, rfl, rfl⟩ := h
    have hsub := toNat_sub_of_not_lt h4
    simp only [UInt8.lt_iff_toNat_lt, UInt8.reduceToNat] at h4 h5
    simp only [List.length_cons] at h6
    refine ⟨by simp; omega, ?_, trivial⟩
    rw [headerOf, puthead_of_lt (by simp only [hsub, UInt8.reduceToNat]; omega), add_toNat_sub]
    rfl
  · -- a long list
    cases hs : readSize rest (b - 247).toNat with
    | error e => simp [hs] at h
    | ok n =>
      simp only [hs] at h
      split_ifs at h with h6
      simp only [Except.ok.injEq, Prod.mk.injEq] at h
      obtain ⟨rfl, rfl, rfl⟩ := h
      have hL := (readSize_sound hs).1
      simp only [List.length_cons] at h6
      refine ⟨by simp; omega, ?_, trivial⟩
      rw [headerOf, puthead_of_le (readSize_sound hs).2.1]
      exact take_long_header hs

lemma readSize_error {rest : List UInt8} {L : ℕ} {e : String} (h : readSize rest L = .error e) :
    e = ErrUnexpectedEOF ∨ e = ErrCanonSize := by
  simp only [readSize] at h
  split_ifs at h <;> cases h
  · exact .inl rfl
  · exact .inr rfl

lemma readKind_error {s : List UInt8} {e : String} (h : readKind s = .error e) :
    e = ErrUnexpectedEOF ∨ e = ErrCanonSize ∨ e = ErrValueTooLarge := by
  match s with
  | [] =>
    cases h
    exact .inl rfl
  | b :: rest =>
    simp only [readKind] at h
    split_ifs at h <;> simp only [Except.bind, Except.map] at h
    · split_ifs at h
      cases h
      exact .inr (.inr rfl)
    · cases h
      exact .inr (.inl rfl)
    · split_ifs at h
      cases h
      exact .inr (.inr rfl)
    · cases hs : readSize rest (b - 183).toNat with
      | error e' =>
        simp only [hs] at h
        cases h
        exact (readSize_error hs).elim .inl (.inr ∘ .inl)
      | ok n =>
        simp only [hs] at h
        split_ifs at h
        cases h
        exact .inr (.inr rfl)
    · split_ifs at h
      cases h
      exact .inr (.inr rfl)
    · cases hs : readSize rest (b - 247).toNat with
      | error e' =>
        simp only [hs] at h
        cases h
        exact (readSize_error hs).elim .inl (.inr ∘ .inl)
      | ok n =>
        simp only [hs] at h
        split_ifs at h
        cases h
        exact .inr (.inr rfl)
lemma split_error {s : List UInt8} {e : String} (h : split s = .error e) :
    e = ErrUnexpectedEOF ∨ e = ErrCanonSize ∨ e = ErrValueTooLarge := by
  unfold split at h
  cases hk : readKind s with
  | error e' =>
    rw [hk] at h
    cases h
    exact readKind_error hk
  | ok r => rw [hk] at h; cases h

lemma eq_rawOf_of_header (hlen : ts + cs ≤ s.length) (htake : s.take ts = headerOf k cs) :
    s = rawOf k ((s.drop ts).take cs) ++ s.drop (ts + cs) := by
  have hc : ((s.drop ts).take cs).length = cs := by
    simp only [List.length_take, List.length_drop]
    omega
  rw [rawOf, hc, ← htake, List.append_assoc, ← List.drop_drop, List.take_append_drop,
    List.take_append_drop]

lemma split_sound {c rest : List UInt8} (h : split s = .ok (k, c, rest)) :
    Canonical k c ∧ s = rawOf k c ++ rest := by
  unfold split at h
  cases hk : readKind s with
  | error e => simp [hk, Except.map] at h
  | ok r =>
    obtain ⟨k', ts, cs⟩ := r
    simp only [hk, Except.map, Except.ok.injEq, Prod.mk.injEq] at h
    obtain ⟨rfl, rfl, rfl⟩ := h
    obtain ⟨hlen, htake, hcanon⟩ := readKind_sound hk
    exact ⟨hcanon, eq_rawOf_of_header hlen htake⟩

lemma readKind_rawOf {c : List UInt8} (hk : Canonical k c) (hc : c.length < 2 ^ 64)
    (rest : List UInt8) :
    readKind (rawOf k c ++ rest) = .ok (k, (headerOf k c.length).length, c.length) := by
  cases k with
  | byte =>
    obtain ⟨x, rfl, hx⟩ := hk
    simp [rawOf, headerOf, readKind, hx, Except.bind]
  | string =>
    by_cases h56 : c.length < 56
    · obtain ⟨hb, hsub⟩ := header_toNat (t := 0x80) (show 128 + c.length < 256 by omega)
      simp only [rawOf, headerOf, puthead_of_lt h56, List.length_singleton,
        List.cons_append, readKind, UInt8.lt_iff_toNat_lt, hb, UInt8.reduceToNat]
      rw [if_neg (by omega), if_pos (by omega), hsub, if_neg ?_]
      · simp only [Except.bind, List.length_cons, List.length_append, List.nil_append]
        rw [if_neg (by omega)]
      · rintro ⟨h1, h2⟩
        obtain ⟨x, rfl⟩ := List.length_eq_one_iff.mp h1
        have hx := UInt8.le_iff_toNat_le.mp (hk x rfl)
        simp only [List.nil_append, List.cons_append, List.head?_cons, Option.any_some,
          decide_eq_true_eq, UInt8.reduceToNat] at h2 hx
        omega
    · have h56' : 56 ≤ c.length := by omega
      have hL := length_putint_le (show c.length < 256 ^ 8 from hc)
      have hL1 := length_putint_pos (show c.length ≠ 0 by omega)
      obtain ⟨hb, hsub⟩ :=
        header_toNat (t := 0xB7) (show 183 + (putint c.length).length < 256 by omega)
      simp only [rawOf, headerOf, puthead_of_le h56', List.length_cons, List.cons_append,
        readKind, UInt8.lt_iff_toNat_lt, hb, UInt8.reduceToNat]
      rw [if_neg (by omega), if_neg (by omega), if_pos (by omega), hsub, List.append_assoc,
        readSize_putint h56']
      simp only [Except.map, Except.bind, List.length_append]
      rw [if_neg (by omega)]
  | list =>
    by_cases h56 : c.length < 56
    · obtain ⟨hb, hsub⟩ := header_toNat (t := 0xC0) (show 192 + c.length < 256 by omega)
      simp only [rawOf, headerOf, puthead_of_lt h56, List.length_singleton,
        List.cons_append, readKind, UInt8.lt_iff_toNat_lt, hb, UInt8.reduceToNat]
      rw [if_neg (by omega), if_neg (by omega), if_neg (by omega), if_pos (by omega), hsub]
      simp only [Except.bind, List.length_cons, List.length_append, List.nil_append]
      rw [if_neg (by omega)]
    · have h56' : 56 ≤ c.length := by omega
      have hL := length_putint_le (show c.length < 256 ^ 8 from hc)
      have hL1 := length_putint_pos (show c.length ≠ 0 by omega)
      obtain ⟨hb, hsub⟩ :=
        header_toNat (t := 0xF7) (show 247 + (putint c.length).length < 256 by omega)
      simp only [rawOf, headerOf, puthead_of_le h56', List.length_cons, List.cons_append,
        readKind, UInt8.lt_iff_toNat_lt, hb, UInt8.reduceToNat]
      rw [if_neg (by omega), if_neg (by omega), if_neg (by omega), if_neg (by omega), hsub,
        List.append_assoc, readSize_putint h56']
      simp only [Except.map, Except.bind, List.length_append]
      rw [if_neg (by omega)]

lemma split_rawOf {c : List UInt8} (hk : Canonical k c) (hc : c.length < 2 ^ 64)
    (rest : List UInt8) : split (rawOf k c ++ rest) = .ok (k, c, rest) := by
  rw [split, readKind_rawOf hk hc rest]
  simp only [Except.map, rawOf, List.append_assoc, List.drop_left, List.take_left',
    ← List.drop_drop]

end Split

/-! ## The stream's reading of a header

The stream decoder reads a header on its own (`Stream.readKind`) and leaves the single-byte
check to the readers of byte strings and integers; `Stream.Raw` makes none. It reads all that
the splitter reads, and a one-byte string below 0x80 besides. -/

/-- `Stream.readUint` reading a size: the stream is limited to its input, so a size that runs
past it is `ErrValueTooLarge`. -/
def streamSize (b : List UInt8) (slen : ℕ) : Except String ℕ :=
  if b.length < slen then .error ErrValueTooLarge else readSize b slen

/-- `Stream.readKind`, with the check of `Stream.Kind` that the content is there. -/
def streamKind (buf : List UInt8) : Except String (Kind × ℕ × ℕ) :=
  match buf with
  -- at top level the stream reports the end of its input as io.EOF
  | [] => .error "EOF"
  | b :: rest =>
    let header : Except String (Kind × ℕ × ℕ) :=
      if b < 0x80 then .ok (.byte, 0, 1)
      else if b < 0xB8 then .ok (.string, 1, (b - 0x80).toNat)
      else if b < 0xC0 then
        (streamSize rest (b - 0xB7).toNat).map fun size => (.string, (b - 0xB7).toNat + 1, size)
      else if b < 0xF8 then .ok (.list, 1, (b - 0xC0).toNat)
      else (streamSize rest (b - 0xF7).toNat).map fun size => (.list, (b - 0xF7).toNat + 1, size)
    header.bind fun (k, tagsize, contentsize) =>
      if contentsize > buf.length - tagsize then .error ErrValueTooLarge
      else .ok (k, tagsize, contentsize)

/-- The item at the front of `b` as the stream reads it: its kind, its content and what
follows it. -/
def streamSplit (b : List UInt8) : Except String (Kind × List UInt8 × List UInt8) :=
  (streamKind b).map fun (k, ts, cs) => (k, (b.drop ts).take cs, b.drop (ts + cs))

section Stream

variable {s : List UInt8} {k : Kind} {ts cs : ℕ}

lemma streamSize_eq_ok {b : List UInt8} {slen n : ℕ} :
    streamSize b slen = .ok n ↔ readSize b slen = .ok n := by
  unfold streamSize readSize
  split_ifs <;> simp

lemma streamSize_error {b : List UInt8} {slen : ℕ} {e : String} (h : streamSize b slen = .error e) :
    e = ErrValueTooLarge ∨ e = ErrCanonSize := by
  unfold streamSize at h
  split_ifs at h with hlen
  · cases h
    exact .inl rfl
  · simp only [readSize, if_neg hlen] at h
    split_ifs at h
    cases h
    exact .inr rfl

lemma readKind_single_low {x : UInt8} (hx : x < 0x80) (t : List UInt8) :
    readKind (0x81 :: x :: t) = .error ErrCanonSize := by
  simp [readKind, hx, Except.bind]

lemma streamKind_single (x : UInt8) (t : List UInt8) :
    streamKind (0x81 :: x :: t) = .ok (.string, 1, 1) := by
  simp [streamKind, Except.bind]

lemma streamKind_of_readKind {r : Kind × ℕ × ℕ} (h : readKind s = .ok r) :
    streamKind s = .ok r := by
  match s with
  | [] => cases h
  | b :: rest =>
    simp only [readKind] at h
    simp only [streamKind]
    split_ifs at h ⊢ with h1 h2 h3 h4 h5 <;> simp only [Except.bind, Except.map] at h ⊢
    · split_ifs at h
      exact h
    · cases h
    · exact h
    · cases hs : readSize rest (b - 183).toNat with
      | error e => simp [hs] at h
      | ok n => simpa [hs, streamSize_eq_ok.mpr hs] using h
    · exact h
    · cases hs : readSize rest (b - 247).toNat with
      | error e => simp [hs] at h
      | ok n => simpa [hs, streamSize_eq_ok.mpr hs] using h

lemma readKind_of_streamKind {r : Kind × ℕ × ℕ} (h : streamKind s = .ok r)
    (hs : ∀ x t, s = 0x81 :: x :: t → 0x80 ≤ x) : readKind s = .ok r := by
  match s with
  | [] => cases h
  | b :: rest =>
    simp only [streamKind] at h
    simp only [readKind]
    split_ifs at h ⊢ with h1 h2 h3 h4 h5 <;> simp only [Except.bind, Except.map] at h ⊢
    · exact h
    · -- the stream read a one-byte string below 0x80, which `hs` excludes
      obtain ⟨hone, hlow⟩ := h3
      obtain ⟨x, t, rfl⟩ : ∃ x t, rest = x :: t := by
        cases rest with
        | nil => simp at hlow
        | cons x t => exact ⟨x, t, rfl⟩
      have hsub := toNat_sub_of_not_lt h1
      have hb : b = 0x81 := by
        apply UInt8.toNat_inj.mp
        simp only [UInt8.reduceToNat] at hsub ⊢
        omega
      simp only [List.head?_cons, Option.any_some, decide_eq_true_eq] at hlow
      exact absurd (hs x t (by rw [hb])) (UInt8.not_le.mpr hlow)
    · exact h
    · cases hsz : streamSize rest (b - 183).toNat with
      | error e => simp [hsz] at h
      | ok n => simpa [hsz, streamSize_eq_ok.mp hsz] using h
    · exact h
    · cases hsz : streamSize rest (b - 247).toNat with
      | error e => simp [hsz] at h
      | ok n => simpa [hsz, streamSize_eq_ok.mp hsz] using h

lemma streamKind_sound (h : streamKind s = .ok (k, ts, cs)) :
    ts + cs ≤ s.length ∧ s.take ts = headerOf k cs ∧ StreamCanonical k ((s.drop ts).take cs) := by
  by_cases hs : ∀ x t, s = 0x81 :: x :: t → 0x80 ≤ x
  · obtain ⟨hlen, htake, hcanon⟩ := readKind_sound (readKind_of_streamKind h hs)
    exact ⟨hlen, htake, hcanon.stream⟩
  · -- a one-byte string below 0x80, which only the stream reads
    push Not at hs
    obtain ⟨x, t, rfl, -⟩ := hs
    rw [streamKind_single] at h
    cases h
    exact ⟨by simp, rfl, trivial⟩

lemma streamKind_error {e : String} (h : streamKind s = .error e) :
    e = "EOF" ∨ e = ErrCanonSize ∨ e = ErrValueTooLarge := by
  match s with
  | [] =>
    cases h
    exact .inl rfl
  | b :: rest =>
    simp only [streamKind] at h
    split_ifs at h with h1 h2 h3 h4 <;> simp only [Except.bind, Except.map] at h
    any_goals
      split_ifs at h
      cases h
      exact .inr (.inr rfl)
    · cases hsz : streamSize rest (b - 183).toNat with
      | error e' =>
        simp only [hsz] at h
        cases h
        exact (streamSize_error hsz).elim (.inr ∘ .inr) (.inr ∘ .inl)
      | ok n =>
        simp only [hsz] at h
        split_ifs at h
        cases h
        exact .inr (.inr rfl)
    · cases hsz : streamSize rest (b - 247).toNat with
      | error e' =>
        simp only [hsz] at h
        cases h
        exact (streamSize_error hsz).elim (.inr ∘ .inr) (.inr ∘ .inl)
      | ok n =>
        simp only [hsz] at h
        split_ifs at h
        cases h
        exact .inr (.inr rfl)

lemma streamKind_rawOf {c : List UInt8} (hk : StreamCanonical k c) (hc : c.length < 2 ^ 64)
    (rest : List UInt8) :
    streamKind (rawOf k c ++ rest) = .ok (k, (headerOf k c.length).length, c.length) := by
  by_cases hcanon : Canonical k c
  · exact streamKind_of_readKind (readKind_rawOf hcanon hc rest)
  · -- only a one-byte string below 0x80 is read by the stream and not by the splitter
    cases k with
    | byte => exact absurd hk hcanon
    | list => exact absurd trivial hcanon
    | string =>
      simp only [Canonical, not_forall, exists_prop] at hcanon
      obtain ⟨x, rfl, -⟩ := hcanon
      exact streamKind_single x rest

lemma streamSplit_sound {c rest : List UInt8} (h : streamSplit s = .ok (k, c, rest)) :
    StreamCanonical k c ∧ s = rawOf k c ++ rest := by
  unfold streamSplit at h
  cases hk : streamKind s with
  | error e => simp [hk, Except.map] at h
  | ok r =>
    obtain ⟨k', ts, cs⟩ := r
    simp only [hk, Except.map, Except.ok.injEq, Prod.mk.injEq] at h
    obtain ⟨rfl, rfl, rfl⟩ := h
    obtain ⟨hlen, htake, hcanon⟩ := streamKind_sound hk
    exact ⟨hcanon, eq_rawOf_of_header hlen htake⟩

lemma streamSplit_error {e : String} (h : streamSplit s = .error e) :
    e = "EOF" ∨ e = ErrCanonSize ∨ e = ErrValueTooLarge := by
  unfold streamSplit at h
  cases hk : streamKind s with
  | error e' =>
    rw [hk] at h
    cases h
    exact streamKind_error hk
  | ok r => rw [hk] at h; cases h

lemma streamSplit_rawOf {c : List UInt8} (hk : StreamCanonical k c) (hc : c.length < 2 ^ 64)
    (rest : List UInt8) : streamSplit (rawOf k c ++ rest) = .ok (k, c, rest) := by
  rw [streamSplit, streamKind_rawOf hk hc rest]
  simp only [Except.map, rawOf, List.append_assoc, List.drop_left, List.take_left',
    ← List.drop_drop]

end Stream

/-! ## Encoders -/

lemma encodeBytes_eq_rawOf (c : List UInt8) :
    ∃ k, k ≠ .list ∧ Canonical k c ∧ encodeBytes c = rawOf k c := by
  match c with
  | [x] =>
    by_cases hx : x ≤ 0x7F
    · refine ⟨.byte, by decide, ⟨x, rfl, ?_⟩, by simp [encodeBytes, hx, rawOf, headerOf]⟩
      rw [UInt8.le_iff_toNat_le] at hx
      exact UInt8.lt_iff_toNat_lt.mpr (by simp only [UInt8.reduceToNat] at hx ⊢; omega)
    · refine ⟨.string, by decide, ?_, ?_⟩
      · rintro y hy
        obtain rfl := List.singleton_inj.mp hy
        rw [UInt8.le_iff_toNat_le] at hx ⊢
        simp only [UInt8.reduceToNat] at hx ⊢
        omega
      · simp only [encodeBytes, if_neg hx, rawOf, headerOf]
        rfl
  | [] => exact ⟨.string, by decide, fun y hy => by simp at hy, rfl⟩
  | x :: y :: t =>
    refine ⟨.string, by decide, canonical_of_length (by decide) (by simp), ?_⟩
    simp only [encodeBytes, rawOf, headerOf, puthead]
    split_ifs <;> rfl

lemma split_encodeBytes_append {c : List UInt8} (hc : c.length < 2 ^ 64) (rest : List UInt8) :
    ∃ k, k ≠ .list ∧ split (encodeBytes c ++ rest) = .ok (k, c, rest) := by
  obtain ⟨k, hk, hcanon, he⟩ := encodeBytes_eq_rawOf c
  exact ⟨k, hk, by rw [he, split_rawOf hcanon hc]⟩

lemma encodeUint_eq_rawOf (i : UInt64) :
    ∃ k, k ≠ .list ∧ Canonical k (putint i.toNat) ∧ encodeUint i = rawOf k (putint i.toNat) := by
  by_cases h0 : i = 0
  · subst h0
    exact ⟨.string, by decide, fun y hy => by simp [putint] at hy, rfl⟩
  have h0' : i.toNat ≠ 0 := fun h => h0 (UInt64.toNat_inj.mp h)
  by_cases h128 : i < 128
  · have hlt : i.toNat < 128 := UInt64.lt_iff_toNat_lt.mp h128
    rw [putint_of_lt h0' (by omega)]
    refine ⟨.byte, by decide, ⟨_, rfl, UInt8.lt_iff_toNat_lt.mpr ?_⟩, ?_⟩
    · rw [toNat_toUInt8_of_lt (by omega)]
      exact hlt
    · simp only [encodeUint, h0, h128, if_false, if_true, rawOf, headerOf]
      rfl
  · have hge : 128 ≤ i.toNat := by
      rw [UInt64.lt_iff_toNat_lt] at h128
      simpa using h128
    have hL := length_putint_le (show i.toNat < 256 ^ 8 from i.toNat_lt)
    refine ⟨.string, by decide, ?_, ?_⟩
    · rintro y hy
      rw [← beUint_putint i.toNat, hy] at hge
      exact UInt8.le_iff_toNat_le.mpr (by simpa [beUint] using hge)
    · simp only [encodeUint, h0, h128, if_false, rawOf, headerOf, puthead_of_lt (show
        (putint i.toNat).length < 56 by omega)]
      rfl

lemma length_encodeBytes_le {c : List UInt8} (hc : c.length < 2 ^ 64) :
    (encodeBytes c).length ≤ c.length + 9 := by
  obtain ⟨k, -, -, he⟩ := encodeBytes_eq_rawOf c
  rw [he, rawOf, List.length_append]
  have := length_headerOf_le k hc
  omega

lemma length_encodeUint_le (i : UInt64) : (encodeUint i).length ≤ 9 := by
  obtain ⟨k, hk, hcanon, he⟩ := encodeUint_eq_rawOf i
  have hL := length_putint_le (show i.toNat < 256 ^ 8 from i.toNat_lt)
  rw [he, rawOf, List.length_append]
  cases k with
  | byte =>
    obtain ⟨x, hx, -⟩ := hcanon
    simp [headerOf, hx]
  | string =>
    rw [headerOf, puthead_of_lt (by omega), List.length_singleton]
    omega
  | list => exact absurd rfl hk

end Rlp
