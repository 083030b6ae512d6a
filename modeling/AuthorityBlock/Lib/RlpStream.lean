import AuthorityBlock.Lib.Rlp

/-! The stream decoder of RLP, as the rlp package drives it when it decodes into a Go type: one
item at a time from what is left of the enclosing list, with the checks each target type
makes. A reader returns the value and the rest of the list.

Each reader is stated both ways against its encoder, as a prefix codec: it reads back the
encoding followed by anything (`readUint_encodeUint`), and whatever it accepts is that
encoding (`readUint_sound`). -/

namespace Rlp

def EOL : String := "rlp: end of list"

def ErrExpectedString : String := "rlp: expected String or Byte"

def ErrExpectedList : String := "rlp: expected List"

def ErrCanonInt : String := "rlp: non-canonical integer format"

def errUintOverflow : String := "rlp: uint overflow"

def ErrMoreThanOneValue : String := "rlp: input contains more than one value"

/-- `Stream.Kind` inside a list: the next item of what is left of it, or EOL at its end. -/
def next (s : List UInt8) : Except String (Kind × List UInt8 × List UInt8) :=
  if s = [] then .error EOL else streamSplit s

/-- `Stream.uint`: an integer of at most `maxbits` bits, big-endian without leading zeros. -/
def readUint (maxbits : ℕ) (s : List UInt8) : Except String (ℕ × List UInt8) := do
  let (k, c, rest) ← next s
  match k with
  | .byte => if beUint c = 0 then .error ErrCanonInt else .ok (beUint c, rest)
  | .string =>
    if c.length > maxbits / 8 then .error errUintOverflow
    else if 2 ≤ c.length ∧ c.head? = some 0 then .error ErrCanonInt
    else if 0 < c.length ∧ beUint c < 128 then .error ErrCanonSize
    else .ok (beUint c, rest)
  | .list => .error ErrExpectedString

/-- `Stream.Bool`. -/
def readBool (s : List UInt8) : Except String (Bool × List UInt8) := do
  let (n, rest) ← readUint 8 s
  if n = 0 then .ok (false, rest)
  else if n = 1 then .ok (true, rest)
  else .error ("rlp: invalid boolean value: " ++ toString n)

/-- `Stream.Bytes`, which decodes a `[]byte`. -/
def readBytes (s : List UInt8) : Except String (List UInt8 × List UInt8) := do
  let (k, c, rest) ← next s
  match k with
  | .byte => .ok (c, rest)
  | .string =>
    if c.length = 1 ∧ c.head?.any (· < 128) then .error ErrCanonSize else .ok (c, rest)
  | .list => .error ErrExpectedString

/-- `decodeBigInt`, into a `*big.Int`: a string without leading zero bytes, read big-endian. -/
def readBigInt (s : List UInt8) : Except String (ℕ × List UInt8) := do
  let (b, rest) ← readBytes s
  if b.head? = some 0 then .error ErrCanonInt else .ok (beUint b, rest)

/-- `writeBigInt`: the big-endian bytes without leading zeros; a negative integer is refused. -/
def encodeBigInt (i : ℤ) : Except String (List UInt8) :=
  if i < 0 then .error "rlp: cannot encode negative *big.Int" else .ok (encodeBytes (putint i.toNat))

/-- `decodeByteArray`, into a `[n]byte`: a string of exactly `n` bytes. -/
def readByteArray (n : ℕ) (s : List UInt8) :
    Except String ({c : List UInt8 // c.length = n} × List UInt8) := do
  let (k, c, rest) ← next s
  match k with
  | .byte =>
    -- a byte is one long: the source refuses an array of any other length
    if h : c.length = n then .ok (⟨c, h⟩, rest)
    else if n = 0 then .error "rlp: input string too long"
    else .error "rlp: input string too short"
  | .string =>
    if h : c.length = n then
      if c.length = 1 ∧ c.head?.any (· < 128) then .error ErrCanonSize else .ok (⟨c, h⟩, rest)
    else if n < c.length then .error "rlp: input string too long"
    else .error "rlp: input string too short"
  | .list => .error ErrExpectedString

/-- `Stream.List`: the content of the list at the front, and what follows it. -/
def readList (s : List UInt8) : Except String (List UInt8 × List UInt8) := do
  let (k, c, rest) ← next s
  if k = .list then .ok (c, rest) else .error ErrExpectedList

/-- `Stream.ListEnd` at the end of a struct: nothing may be left of its list. -/
def listEnd (typ : String) (c : List UInt8) : Except String Unit :=
  if c = [] then .ok () else .error ("rlp: input list has too many elements for " ++ typ)

/-- A field of a struct: its list ending before the field is "too few elements". -/
def field {α : Type} (typ : String) (r : Except String (α × List UInt8)) :
    Except String (α × List UInt8) :=
  match r with
  | .error e => .error (if e = EOL then "rlp: too few elements for " ++ typ else e)
  | .ok v => .ok v

lemma streamSplit_rest_length_lt {s c rest : List UInt8} {k : Kind}
    (h : streamSplit s = .ok (k, c, rest)) : rest.length < s.length := by
  obtain ⟨hk, rfl⟩ := streamSplit_sound h
  have hne := rawOf_ne_nil hk
  rw [List.length_append]
  have := List.length_pos_of_ne_nil hne
  omega

/-- The items of a list's content as `Stream.Raw` returns them, read up to the end of the
list. On an error the source has already made room for the item that failed, so the items
read are followed by an empty one. -/
def rawItems (c : List UInt8) : Except (String × List (List UInt8)) (List (List UInt8)) :=
  if c = [] then .ok []
  else
    match _hsplit : streamSplit c with
    | .error e => .error (e, [[]])
    | .ok (k, v, rest) =>
      match rawItems rest with
      | .ok raws => .ok (rawOf k v :: raws)
      | .error (e, raws) => .error (e, rawOf k v :: raws)
termination_by c.length
decreasing_by exact streamSplit_rest_length_lt _hsplit

/-- `s.Decode(&raws)` into a `[]rlp.RawValue`: the error it returns, the items it leaves in
`raws` (none when the error came before the list was entered) and what follows the list. -/
def readRaws (s : List UInt8) : Option String × List (List UInt8) × List UInt8 :=
  match next s with
  | .error e => (some e, [], s)
  | .ok (k, c, rest) =>
    if k = .list then
      match rawItems c with
      | .ok raws => (none, raws, rest)
      | .error (e, raws) => (some e, raws, rest)
    else (some ErrExpectedList, [], s)

/-- `rlp.DecodeBytes`: one value read from the whole of `b`, which must hold nothing after it.
The reader's errors are of type `ε`; `fail` makes one of the package's own. -/
def decodeBytes {ε α : Type} (fail : String → ε) (read : List UInt8 → Except ε (α × List UInt8))
    (b : List UInt8) : Except ε α :=
  if b = [] then .error (fail "EOF")
  else do
    let (v, rest) ← read b
    if rest = [] then .ok v else .error (fail ErrMoreThanOneValue)

/-! ## The item at the front -/

section Next

variable {s c rest : List UInt8} {k : Kind}

lemma next_rawOf (hk : StreamCanonical k c) (hc : c.length < 2 ^ 64) (rest : List UInt8) :
    next (rawOf k c ++ rest) = .ok (k, c, rest) := by
  rw [next, if_neg (List.append_ne_nil_of_left_ne_nil (rawOf_ne_nil hk) rest),
    streamSplit_rawOf hk hc]

lemma next_sound (h : next s = .ok (k, c, rest)) : StreamCanonical k c ∧ s = rawOf k c ++ rest := by
  unfold next at h
  split_ifs at h
  exact streamSplit_sound h

lemma next_error_EOL {e : String} (h : next s = .error e) (hs : s ≠ []) : e ≠ EOL := by
  rw [next, if_neg hs] at h
  rcases streamSplit_error h with rfl | rfl | rfl <;> decide

lemma next_eq_bind {β : Type} (f : Kind × List UInt8 × List UInt8 → Except String β)
    (h : next s = .ok (k, c, rest)) : (next s).bind f = f (k, c, rest) := by
  rw [h]
  rfl

lemma canonical_kind_unique {k' : Kind} (hk : k ≠ .list) (hk' : k' ≠ .list)
    (h : Canonical k c) (h' : Canonical k' c) : k = k' := by
  cases k <;> cases k'
  case byte.string | string.byte =>
    obtain ⟨x, rfl, hx⟩ := (by assumption : Canonical .byte c)
    exact absurd ((by assumption : Canonical .string [x]) x rfl) (UInt8.not_le.mpr hx)
  all_goals first | rfl | exact absurd rfl hk | exact absurd rfl hk'

lemma encodeBytes_of_canonical (hk : k ≠ .list) (h : Canonical k c) :
    encodeBytes c = rawOf k c := by
  obtain ⟨k', hk', hcanon, he⟩ := encodeBytes_eq_rawOf c
  rw [he, canonical_kind_unique hk' hk hcanon h]

lemma not_single_low_of_canonical (h : Canonical .string c) :
    ¬ (c.length = 1 ∧ c.head?.any (· < 128)) := by
  rintro ⟨h1, h2⟩
  obtain ⟨x, rfl⟩ := List.length_eq_one_iff.mp h1
  simp only [List.head?_cons, Option.any_some, decide_eq_true_eq] at h2
  exact UInt8.not_le.mpr h2 (h x rfl)

lemma canonical_of_not_single_low (h : ¬ (c.length = 1 ∧ c.head?.any (· < 128))) :
    Canonical .string c := by
  rintro x rfl
  exact UInt8.not_lt.mp fun hx => h ⟨rfl, by simpa using hx⟩

end Next

/-! ## Byte strings -/

section Bytes

variable {s c rest : List UInt8}

lemma readBytes_encodeBytes (hc : c.length < 2 ^ 64) (rest : List UInt8) :
    readBytes (encodeBytes c ++ rest) = .ok (c, rest) := by
  obtain ⟨k, hk, hcanon, he⟩ := encodeBytes_eq_rawOf c
  rw [readBytes, he]
  simp only [bind, next_eq_bind _ (next_rawOf hcanon.stream hc rest)]
  cases k with
  | byte => rfl
  | string => exact if_neg (not_single_low_of_canonical hcanon)
  | list => exact absurd rfl hk

lemma readBytes_sound (h : readBytes s = .ok (c, rest)) : s = encodeBytes c ++ rest := by
  cases hn : next s with
  | error e => simp [readBytes, hn, bind, Except.bind] at h
  | ok r =>
    obtain ⟨k, c', rest'⟩ := r
    obtain ⟨hcanon, rfl⟩ := next_sound hn
    simp only [readBytes, bind, next_eq_bind _ hn] at h
    cases k with
    | byte =>
      simp only [Except.ok.injEq, Prod.mk.injEq] at h
      obtain ⟨rfl, rfl⟩ := h
      rw [encodeBytes_of_canonical (k := .byte) (by decide) hcanon]
    | string =>
      -- the reader's own check leaves a canonical string
      dsimp only at h
      split_ifs at h with hlow
      simp only [Except.ok.injEq, Prod.mk.injEq] at h
      obtain ⟨rfl, rfl⟩ := h
      rw [encodeBytes_of_canonical (by decide) (canonical_of_not_single_low hlow)]
    | list => cases h

lemma readByteArray_encodeBytes {n : ℕ} (hc : c.length = n) (hn : n < 2 ^ 64)
    (rest : List UInt8) : readByteArray n (encodeBytes c ++ rest) = .ok (⟨c, hc⟩, rest) := by
  obtain ⟨k, hk, hcanon, he⟩ := encodeBytes_eq_rawOf c
  rw [readByteArray, he]
  simp only [bind, next_eq_bind _ (next_rawOf hcanon.stream (hc ▸ hn) rest)]
  cases k with
  | byte => exact dif_pos hc
  | string =>
    dsimp only
    rw [dif_pos hc]
    exact if_neg (not_single_low_of_canonical hcanon)
  | list => exact absurd rfl hk

lemma readByteArray_sound {n : ℕ} {c : {c : List UInt8 // c.length = n}}
    (h : readByteArray n s = .ok (c, rest)) : s = encodeBytes c.1 ++ rest := by
  cases hn : next s with
  | error e => simp [readByteArray, hn, bind, Except.bind] at h
  | ok r =>
    obtain ⟨k, c', rest'⟩ := r
    obtain ⟨hcanon, rfl⟩ := next_sound hn
    simp only [readByteArray, bind, next_eq_bind _ hn] at h
    cases k with
    | byte =>
      dsimp only at h
      split_ifs at h
      simp only [Except.ok.injEq, Prod.mk.injEq] at h
      obtain ⟨rfl, rfl⟩ := h
      rw [encodeBytes_of_canonical (k := .byte) (by decide) hcanon]
    | string =>
      dsimp only at h
      split_ifs at h with hlen hlow
      simp only [Except.ok.injEq, Prod.mk.injEq] at h
      obtain ⟨rfl, rfl⟩ := h
      rw [encodeBytes_of_canonical (by decide) (canonical_of_not_single_low hlow)]
    | list => cases h

end Bytes

/-! ## Integers and bools -/

section Uint

variable {s rest : List UInt8} {maxbits : ℕ}

lemma putint_ne_nil {n : ℕ} (h : n ≠ 0) : putint n ≠ [] :=
  List.ne_nil_of_length_pos (length_putint_pos h)

lemma le_of_canonical_putint {n : ℕ} (h0 : n ≠ 0) (h : Canonical .string (putint n)) :
    128 ≤ n := by
  by_contra hsmall
  rw [putint_of_lt h0 (by omega)] at h
  have hlt : n.toUInt8 < 0x80 := UInt8.lt_iff_toNat_lt.mpr (by
    rw [toNat_toUInt8_of_lt (by omega)]
    simpa using Nat.lt_of_not_le hsmall)
  exact UInt8.not_le.mpr hlt (h _ rfl)

lemma readUint_encodeUint (i : UInt64) (hbits : (putint i.toNat).length ≤ maxbits / 8)
    (rest : List UInt8) : readUint maxbits (encodeUint i ++ rest) = .ok (i.toNat, rest) := by
  obtain ⟨k, hk, hcanon, he⟩ := encodeUint_eq_rawOf i
  have hlen : (putint i.toNat).length < 2 ^ 64 :=
    lt_of_le_of_lt (length_putint_le (show i.toNat < 256 ^ 8 from i.toNat_lt)) (by decide)
  have hval : beUint (putint i.toNat) = i.toNat := beUint_putint _
  rw [readUint, he]
  simp only [bind, next_eq_bind _ (next_rawOf hcanon.stream hlen rest)]
  cases k with
  | byte =>
    -- a single byte is a value between 1 and 0x7F
    obtain ⟨x, hx, -⟩ := hcanon
    have hne : i.toNat ≠ 0 := by
      intro h0
      rw [h0] at hx
      simp [putint] at hx
    dsimp only
    rw [hval, if_neg hne]
  | string =>
    dsimp only
    rw [if_neg (by omega), if_neg (fun h => head?_putint_ne_zero _ h.2), hval, if_neg]
    rintro ⟨hpos, hlt⟩
    have hne : i.toNat ≠ 0 := fun h0 => by simp [h0, putint] at hpos
    have := le_of_canonical_putint hne hcanon
    omega
  | list => exact absurd rfl hk

lemma lt_of_length_putint_le {n k : ℕ} (h : (putint n).length ≤ k) : n < 256 ^ k := by
  rw [putint, List.length_map, List.length_reverse] at h
  exact (Nat.digits_length_le_iff (by decide) n).mp h

lemma encodeUint_of_canonical {n : ℕ} {k : Kind} (hn : (putint n).length ≤ 8) (hk : k ≠ .list)
    (h : Canonical k (putint n)) : encodeUint n.toUInt64 = rawOf k (putint n) := by
  have hlt : n < 2 ^ 64 := lt_of_length_putint_le hn
  have hn' : n.toUInt64.toNat = n := by simpa using Nat.mod_eq_of_lt hlt
  obtain ⟨k', hk', hcanon, he⟩ := encodeUint_eq_rawOf n.toUInt64
  rw [hn'] at hcanon he
  rw [he, canonical_kind_unique hk' hk hcanon h]

lemma head?_ne_zero_of_checks {c : List UInt8} (h2 : ¬ (2 ≤ c.length ∧ c.head? = some 0))
    (h3 : ¬ (0 < c.length ∧ beUint c < 128)) : c.head? ≠ some 0 := by
  match c with
  | [] => simp
  | [y] =>
    intro hy
    simp only [List.head?_cons, Option.some.injEq] at hy
    subst hy
    exact h3 ⟨by simp, by decide⟩
  | y :: z :: t => exact fun h => h2 ⟨by simp, h⟩

lemma canonical_of_uint_check {c : List UInt8} (h3 : ¬ (0 < c.length ∧ beUint c < 128)) :
    Canonical .string c := by
  rintro x rfl
  have hx : ¬ x.toNat < 128 := fun hx => h3 ⟨by simp, by simpa [beUint] using hx⟩
  exact UInt8.le_iff_toNat_le.mpr (by simp only [UInt8.reduceToNat]; omega)

lemma readUint_sound {n : ℕ} (hbits₁ : 8 ≤ maxbits) (hbits : maxbits ≤ 64)
    (h : readUint maxbits s = .ok (n, rest)) :
    (putint n).length ≤ maxbits / 8 ∧ s = encodeUint n.toUInt64 ++ rest := by
  cases hn : next s with
  | error e => simp [readUint, hn, bind, Except.bind] at h
  | ok r =>
    obtain ⟨k, c, rest'⟩ := r
    obtain ⟨hcanon, rfl⟩ := next_sound hn
    simp only [readUint, bind, next_eq_bind _ hn] at h
    cases k with
    | byte =>
      obtain ⟨x, rfl, hx⟩ := hcanon
      dsimp only at h
      split_ifs at h with h0
      simp only [Except.ok.injEq, Prod.mk.injEq] at h
      obtain ⟨rfl, rfl⟩ := h
      have hxn : beUint [x] = x.toNat := by simp [beUint]
      have hx' : x.toNat < 128 := UInt8.lt_iff_toNat_lt.mp hx
      rw [hxn] at h0 ⊢
      have hput : putint x.toNat = [x] := by
        rw [putint_of_lt h0 (by omega), Nat.toUInt8_eq, UInt8.ofNat_toNat]
      refine ⟨by rw [hput]; simp; omega, ?_⟩
      have hcanon : Canonical .byte (putint x.toNat) := by
        rw [hput]
        exact ⟨x, rfl, hx⟩
      rw [encodeUint_of_canonical (by rw [hput]; simp) (by decide) hcanon, hput]
    | string =>
      dsimp only at h
      split_ifs at h with h1 h2 h3
      simp only [Except.ok.injEq, Prod.mk.injEq] at h
      obtain ⟨rfl, rfl⟩ := h
      have hput : putint (beUint c) = c := putint_beUint (head?_ne_zero_of_checks h2 h3)
      have hlen : (putint (beUint c)).length ≤ maxbits / 8 := by
        rw [hput]
        omega
      have hcanon : Canonical .string (putint (beUint c)) := by
        rw [hput]
        exact canonical_of_uint_check h3
      refine ⟨hlen, ?_⟩
      rw [encodeUint_of_canonical (by omega) (by decide) hcanon, hput]
    | list => cases h

lemma readBool_encodeBool (b : Bool) (rest : List UInt8) :
    readBool (encodeBool b ++ rest) = .ok (b, rest) := by
  cases b with
  | false =>
    rw [readBool, show encodeBool false = encodeUint 0 from rfl,
      readUint_encodeUint 0 (by simp [putint]) rest]
    rfl
  | true =>
    rw [readBool, show encodeBool true = encodeUint 1 from rfl,
      readUint_encodeUint 1 (by rw [putint_of_lt (by decide) (by decide)]; rfl) rest]
    rfl

lemma readBool_sound {b : Bool} (h : readBool s = .ok (b, rest)) : s = encodeBool b ++ rest := by
  cases hu : readUint 8 s with
  | error e => simp [readBool, hu, bind, Except.bind] at h
  | ok r =>
    obtain ⟨n, rest'⟩ := r
    obtain ⟨-, rfl⟩ := readUint_sound le_rfl (by decide) hu
    simp only [readBool, hu, bind, Except.bind] at h
    split_ifs at h with h0 h1
    · simp only [Except.ok.injEq, Prod.mk.injEq] at h
      obtain ⟨rfl, rfl⟩ := h
      rw [h0]
      rfl
    · simp only [Except.ok.injEq, Prod.mk.injEq] at h
      obtain ⟨rfl, rfl⟩ := h
      rw [h1]
      rfl

end Uint

/-! ## Lists -/

section List

variable {s c rest : List UInt8} {raws : List (List UInt8)}

lemma readList_encodeList (hc : c.length < 2 ^ 64) (rest : List UInt8) :
    readList (encodeList c ++ rest) = .ok (c, rest) := by
  rw [readList, show encodeList c = rawOf .list c from rfl]
  simp only [bind, next_eq_bind _ (next_rawOf (k := .list) trivial hc rest)]
  rfl

lemma readList_sound (h : readList s = .ok (c, rest)) : s = encodeList c ++ rest := by
  cases hn : next s with
  | error e => simp [readList, hn, bind, Except.bind] at h
  | ok r =>
    obtain ⟨k, c', rest'⟩ := r
    obtain ⟨-, rfl⟩ := next_sound hn
    simp only [readList, bind, next_eq_bind _ hn] at h
    split_ifs at h with hk
    simp only [Except.ok.injEq, Prod.mk.injEq] at h
    obtain ⟨rfl, rfl⟩ := h
    rw [hk]
    rfl

lemma encodeList_inj {c c' : List UInt8} (hc : c.length < 2 ^ 64) (hc' : c'.length < 2 ^ 64)
    (h : encodeList c = encodeList c') : c = c' := by
  have h₁ := readList_encodeList hc []
  rw [h, readList_encodeList hc' [], Except.ok.injEq, Prod.mk.injEq] at h₁
  exact h₁.1.symm

lemma listEnd_eq_ok {typ : String} {u : Unit} (h : listEnd typ c = .ok u) : c = [] := by
  unfold listEnd at h
  split_ifs at h with hc
  exact hc

lemma field_eq_ok {α : Type} {typ : String} {r : Except String (α × List UInt8)} {v : α × List UInt8}
    (h : field typ r = .ok v) : r = .ok v := by
  cases r with
  | error e => cases h
  | ok v' => exact h

lemma rawItems_nil : rawItems [] = .ok [] := by
  rw [rawItems, if_pos rfl]

lemma rawItems_of_streamSplit_error {e : String} (hc : c ≠ []) (hs : streamSplit c = .error e) :
    rawItems c = .error (e, [[]]) := by
  rw [rawItems, if_neg hc]
  split
  · next e' he => rw [hs, Except.error.injEq] at he; rw [he]
  · next k' v' rest' he => rw [hs] at he; cases he

lemma rawItems_of_streamSplit_ok {k : Kind} {v : List UInt8} (hc : c ≠ [])
    (hs : streamSplit c = .ok (k, v, rest)) :
    rawItems c = match rawItems rest with
      | .ok raws => .ok (rawOf k v :: raws)
      | .error (e, raws) => .error (e, rawOf k v :: raws) := by
  rw [rawItems, if_neg hc]
  split
  · next e he => rw [hs] at he; cases he
  · next k' v' rest' he =>
    rw [hs, Except.ok.injEq, Prod.mk.injEq, Prod.mk.injEq] at he
    obtain ⟨rfl, rfl, rfl⟩ := he
    rfl

lemma rawItems_rawOf {k : Kind} {v : List UInt8} (hk : StreamCanonical k v) (hv : v.length < 2 ^ 64)
    (h : rawItems rest = .ok raws) : rawItems (rawOf k v ++ rest) = .ok (rawOf k v :: raws) := by
  rw [rawItems_of_streamSplit_ok (List.append_ne_nil_of_left_ne_nil (rawOf_ne_nil hk) rest)
    (streamSplit_rawOf hk hv rest), h]

lemma rawItems_sound (h : rawItems c = .ok raws) : c = raws.flatten := by
  induction c using rawItems.induct generalizing raws with
  | case1 =>
    rw [rawItems_nil, Except.ok.injEq] at h
    rw [← h]
    rfl
  | case2 c hc e he =>
    rw [rawItems_of_streamSplit_error hc he] at h
    cases h
  | case3 c hc k v rest hs raws' hr ih =>
    rw [rawItems_of_streamSplit_ok hc hs, hr, Except.ok.injEq] at h
    rw [← h, List.flatten_cons, ← ih hr]
    exact (streamSplit_sound hs).2
  | case4 c hc k v rest hs e raws' hr ih =>
    rw [rawItems_of_streamSplit_ok hc hs, hr] at h
    cases h

lemma rawItems_error {e : String} (h : rawItems c = .error (e, raws)) : raws.getLast? = some [] := by
  induction c using rawItems.induct generalizing e raws with
  | case1 =>
    rw [rawItems_nil] at h
    cases h
  | case2 c hc e' he =>
    rw [rawItems_of_streamSplit_error hc he] at h
    cases h
    rfl
  | case3 c hc k v rest hs raws' hr ih =>
    rw [rawItems_of_streamSplit_ok hc hs, hr] at h
    cases h
  | case4 c hc k v rest hs e' raws' hr ih =>
    rw [rawItems_of_streamSplit_ok hc hs, hr] at h
    cases h
    simp [List.getLast?_cons, ih hr]

/-- One encoded item, as `Stream.Raw` returns it: a content the stream reads, under its header. -/
def IsItem (raw : List UInt8) : Prop :=
  ∃ k c, StreamCanonical k c ∧ c.length < 2 ^ 64 ∧ raw = rawOf k c

lemma rawItems_flatten {raws : List (List UInt8)} (h : ∀ raw ∈ raws, IsItem raw) :
    rawItems raws.flatten = .ok raws := by
  induction raws with
  | nil => exact rawItems_nil
  | cons raw raws ih =>
    obtain ⟨k, v, hk, hv, rfl⟩ := h raw List.mem_cons_self
    rw [List.flatten_cons]
    exact rawItems_rawOf hk hv (ih fun r hr => h r (List.mem_cons_of_mem _ hr))

lemma readRaws_nil : readRaws [] = (some EOL, [], []) := rfl

lemma readRaws_encodeList (hc : c.length < 2 ^ 64) (h : rawItems c = .ok raws)
    (rest : List UInt8) : readRaws (encodeList c ++ rest) = (none, raws, rest) := by
  rw [readRaws, show encodeList c = rawOf .list c from rfl,
    next_rawOf (k := .list) trivial hc rest]
  simp only [if_true, h]

lemma readRaws_sound (h : readRaws s = (none, raws, rest)) : s = encodeList raws.flatten ++ rest := by
  unfold readRaws at h
  split at h
  · cases h
  · next k c rest' hn =>
    obtain ⟨-, rfl⟩ := next_sound hn
    split_ifs at h with hk
    · split at h
      · next raws' hr =>
        simp only [Prod.mk.injEq] at h
        obtain ⟨-, rfl, rfl⟩ := h
        rw [hk, ← rawItems_sound hr]
        rfl
      · cases h
    · cases h

lemma readRaws_error {e : String} (h : readRaws s = (some e, raws, rest)) :
    raws = [] ∨ raws.getLast? = some [] := by
  unfold readRaws at h
  split at h
  · simp only [Prod.mk.injEq] at h
    exact .inl h.2.1.symm
  · split_ifs at h
    · split at h
      · cases h
      · next e' raws' hr =>
        simp only [Prod.mk.injEq] at h
        obtain ⟨-, rfl, -⟩ := h
        exact .inr (rawItems_error hr)
    · simp only [Prod.mk.injEq] at h
      exact .inl h.2.1.symm

end List

section Top

lemma bind_eq_ok {ε α β : Type} {x : Except ε α} {f : α → Except ε β} {b : β}
    (h : (x >>= f) = .ok b) : ∃ a, x = .ok a ∧ f a = .ok b := by
  cases x with
  | error e => cases h
  | ok a => exact ⟨a, rfl, h⟩

lemma mapError_eq_ok {ε ε' α : Type} {x : Except ε α} {g : ε → ε'} {a : α}
    (h : x.mapError g = .ok a) : x = .ok a := by
  cases x with
  | error e => cases h
  | ok a' => simpa [Except.mapError] using h

lemma map_eq_ok {ε α β : Type} {x : Except ε α} {f : α → β} {b : β} (h : x.map f = .ok b) :
    ∃ a, x = .ok a ∧ f a = b := by
  cases x with
  | error e => cases h
  | ok a => exact ⟨a, rfl, Except.ok.inj h⟩

lemma length_le_encodeBytes (c : List UInt8) : c.length ≤ (encodeBytes c).length := by
  obtain ⟨k, -, -, he⟩ := encodeBytes_eq_rawOf c
  rw [he, rawOf, List.length_append]
  omega

variable {ε α : Type} {fail : String → ε} {read : List UInt8 → Except ε (α × List UInt8)}
  {b : List UInt8} {v : α}

lemma decodeBytes_of_read (hb : b ≠ []) (h : read b = .ok (v, [])) :
    decodeBytes fail read b = .ok v := by
  rw [decodeBytes, if_neg hb, h]
  rfl

lemma encodeBytes_ne_nil (c : List UInt8) : encodeBytes c ≠ [] := by
  obtain ⟨k, -, hk, he⟩ := encodeBytes_eq_rawOf c
  rw [he]
  exact rawOf_ne_nil hk.stream

lemma encodeList_ne_nil (c : List UInt8) : encodeList c ≠ [] :=
  rawOf_ne_nil (k := .list) (c := c) trivial

lemma decodeBytes_encodeBytes {f : String → String} {c : List UInt8} (hc : c.length < 2 ^ 64) :
    decodeBytes f readBytes (encodeBytes c) = .ok c :=
  decodeBytes_of_read (encodeBytes_ne_nil c) (by simpa using readBytes_encodeBytes hc [])

lemma decodeBytes_encodeBool {f : String → String} (b : Bool) :
    decodeBytes f readBool (encodeBool b) = .ok b :=
  decodeBytes_of_read (by cases b <;> simp [encodeBool]) (by simpa using readBool_encodeBool b [])

lemma decodeBytes_of_read_error {f : ε} (hb : b ≠ []) (h : read b = .error f) :
    decodeBytes fail read b = .error f := by
  rw [decodeBytes, if_neg hb, h]
  rfl

lemma length_encodeList_le {c : List UInt8} (hc : c.length < 2 ^ 64) :
    (encodeList c).length ≤ c.length + 9 := by
  have := length_puthead_le 0xC0 0xF7 hc
  rw [encodeList, List.length_append]
  omega

lemma decodeBytes_sound (h : decodeBytes fail read b = .ok v) : read b = .ok (v, []) := by
  unfold decodeBytes at h
  split_ifs at h with hb
  cases hr : read b with
  | error e => simp [hr, bind, Except.bind] at h
  | ok r =>
    obtain ⟨v', rest⟩ := r
    simp only [hr, bind, Except.bind] at h
    split_ifs at h with hrest
    cases h
    rw [hrest]

end Top

end Rlp
