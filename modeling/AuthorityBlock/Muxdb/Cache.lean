import AuthorityBlock.Muxdb.NodeKey

/-! The node blob caches of `muxdb/internal/trie/cache.go`. The committing cache is keyed by
name, path and distinct number and keeps the commit number in front of the blob; the querying
cache is keyed by all four. Each is a `directcache` map, which may drop any entry at any time
or not store one, so a run of the caches interleaves additions with drops. Over any run, what
`GetNodeBlob` returns is a blob added for the same name, path, commit and distinct number,
when the names form a prefix code. -/

namespace AuthorityBlock.Muxdb

open ByteOrder PrefixCode

structure Cache where
  queriedNodes : List UInt8 → Option (List UInt8)
  committedNodes : List UInt8 → Option (List UInt8)

namespace Cache

def empty : Cache := ⟨fun _ => none, fun _ => none⟩

variable (c : Cache)

def addNodeBlob (name : List UInt8) (seq : UInt64) (path blob : List UInt8)
    (isCommitting : Bool) : Cache :=
  let k := appendUint32 (name ++ path) (distinctNum seq)
  if isCommitting then
    -- committing cache key: name + path + distinctNum, the commit number before the blob
    { c with committedNodes :=
        Function.update c.committedNodes k (some (appendUint32 [] (commitNum seq) ++ blob)) }
  else
    -- querying cache key: name + path + distinctNum + commitNum
    { c with queriedNodes :=
        Function.update c.queriedNodes (appendUint32 k (commitNum seq)) (some blob) }

def getNodeBlob (name : List UInt8) (seq : UInt64) (path dst : List UInt8) : List UInt8 :=
  let k := appendUint32 (name ++ path) (distinctNum seq)
  -- lookup from committing cache: the callback only sets the blob on a matching commit number
  let found := c.committedNodes k
  let blob := match found with
    | some b => if uint32BE b = commitNum seq then dst ++ b.drop 4 else []
    | none => []
  if found.isSome && !blob.isEmpty then blob
  else
    -- fallback to querying cache
    let blob := match c.queriedNodes (appendUint32 k (commitNum seq)) with
      | some b => dst ++ b
      | none => blob
    if !blob.isEmpty then blob else []

/-- What happens to the caches: a blob added, or an entry of one of them dropped. -/
inductive Op
  | add (name : List UInt8) (seq : UInt64) (path blob : List UInt8) (isCommitting : Bool)
  | dropQueried (key : List UInt8)
  | dropCommitted (key : List UInt8)

def Op.apply : Op → Cache → Cache
  | .add name seq path blob isCommitting, c => c.addNodeBlob name seq path blob isCommitting
  | .dropQueried key, c => { c with queriedNodes := Function.update c.queriedNodes key none }
  | .dropCommitted key, c =>
    { c with committedNodes := Function.update c.committedNodes key none }

def run (ops : List Op) (c : Cache) : Cache := ops.foldl (fun c op => op.apply c) c

/-- Every entry of the caches is one that an addition of `ops` wrote. -/
structure Sourced (ops : List Op) (c : Cache) : Prop where
  committed : ∀ k v, c.committedNodes k = some v → ∃ name seq path blob,
    Op.add name seq path blob true ∈ ops ∧ k = appendUint32 (name ++ path) (distinctNum seq) ∧
      v = appendUint32 [] (commitNum seq) ++ blob
  queried : ∀ k v, c.queriedNodes k = some v → ∃ name seq path,
    Op.add name seq path v false ∈ ops ∧
      k = appendUint32 (appendUint32 (name ++ path) (distinctNum seq)) (commitNum seq)

variable {c}

lemma sourced_empty : Sourced [] empty :=
  ⟨fun _ _ h => (by simp [empty] at h), fun _ _ h => (by simp [empty] at h)⟩

lemma Sourced.mono {ops ops' : List Op} (h : Sourced ops c) (hsub : ops ⊆ ops') :
    Sourced ops' c where
  committed k v hv := by
    obtain ⟨name, seq, path, blob, hmem, hk, hv⟩ := h.committed k v hv
    exact ⟨name, seq, path, blob, hsub hmem, hk, hv⟩
  queried k v hv := by
    obtain ⟨name, seq, path, hmem, hk⟩ := h.queried k v hv
    exact ⟨name, seq, path, hsub hmem, hk⟩

lemma Sourced.apply {ops : List Op} (h : Sourced ops c) (op : Op) :
    Sourced (ops ++ [op]) (op.apply c) := by
  have hold := h.mono (List.subset_append_left ops [op])
  cases op with
  | add name seq path blob isCommitting =>
    have hmem : Op.add name seq path blob isCommitting ∈ ops ++ [.add name seq path blob isCommitting] :=
      List.mem_append_right _ (List.mem_singleton_self _)
    cases isCommitting with
    | true =>
      refine ⟨fun k v hv => ?_, hold.queried⟩
      by_cases hk : k = appendUint32 (name ++ path) (distinctNum seq)
      · subst hk
        simp only [Op.apply, addNodeBlob, if_true, Function.update_self,
          Option.some.injEq] at hv
        exact ⟨name, seq, path, blob, hmem, rfl, hv.symm⟩
      · simp only [Op.apply, addNodeBlob, if_true, Function.update_of_ne hk] at hv
        exact hold.committed k v hv
    | false =>
      refine ⟨hold.committed, fun k v hv => ?_⟩
      by_cases hk : k = appendUint32 (appendUint32 (name ++ path) (distinctNum seq)) (commitNum seq)
      · subst hk
        simp only [Op.apply, addNodeBlob, Bool.false_eq_true, if_false, Function.update_self,
          Option.some.injEq] at hv
        exact ⟨name, seq, path, hv ▸ hmem, rfl⟩
      · simp only [Op.apply, addNodeBlob, Bool.false_eq_true, if_false,
          Function.update_of_ne hk] at hv
        exact hold.queried k v hv
  | dropQueried key =>
    refine ⟨hold.committed, fun k v hv => ?_⟩
    by_cases hk : k = key
    · subst hk
      simp [Op.apply] at hv
    · simp only [Op.apply, Function.update_of_ne hk] at hv
      exact hold.queried k v hv
  | dropCommitted key =>
    refine ⟨fun k v hv => ?_, hold.queried⟩
    by_cases hk : k = key
    · subst hk
      simp [Op.apply] at hv
    · simp only [Op.apply, Function.update_of_ne hk] at hv
      exact hold.committed k v hv

lemma sourced_run (ops : List Op) : Sourced ops (run ops empty) := by
  induction ops using List.reverseRecOn with
  | nil => exact sourced_empty
  | append_singleton ops op ih =>
    rw [run, List.foldl_append, List.foldl_cons, List.foldl_nil]
    exact ih.apply op

lemma getNodeBlob_cases (name : List UInt8) (seq : UInt64) (path dst : List UInt8) :
    c.getNodeBlob name seq path dst = [] ∨
    (∃ b, c.committedNodes (appendUint32 (name ++ path) (distinctNum seq)) = some b ∧
      uint32BE b = commitNum seq ∧ c.getNodeBlob name seq path dst = dst ++ b.drop 4) ∨
    (∃ b, c.queriedNodes (appendUint32 (appendUint32 (name ++ path) (distinctNum seq))
      (commitNum seq)) = some b ∧ c.getNodeBlob name seq path dst = dst ++ b) := by
  simp only [getNodeBlob]
  cases hq : c.queriedNodes (appendUint32 (appendUint32 (name ++ path) (distinctNum seq))
      (commitNum seq)) with
  | none =>
    cases hcom : c.committedNodes (appendUint32 (name ++ path) (distinctNum seq)) with
    | none => simp
    | some b =>
      by_cases hc : uint32BE b = commitNum seq
      · by_cases hb : (dst ++ b.drop 4).isEmpty
        · simp [hc, hb]
        · right; left
          exact ⟨b, rfl, hc, by simp [hc, hb]⟩
      · simp [hc]
  | some b' =>
    -- the fallback returns the queried blob, unless it is empty
    cases hcom : c.committedNodes (appendUint32 (name ++ path) (distinctNum seq)) with
    | none =>
      by_cases hb' : (dst ++ b').isEmpty
      · simp [hb']
      · right; right
        exact ⟨b', rfl, by simp [hb']⟩
    | some b =>
      by_cases hhit : uint32BE b = commitNum seq ∧ (dst ++ b.drop 4).isEmpty = false
      · right; left
        exact ⟨b, rfl, hhit.1, by simp [hhit.1, hhit.2]⟩
      -- a committed entry of another commit number, or an empty one, falls back
      have hmiss : (if uint32BE b = commitNum seq then dst ++ b.drop 4 else []).isEmpty := by
        by_cases hc : uint32BE b = commitNum seq
        · simpa [hc] using hhit
        · simp [hc]
      by_cases hb' : (dst ++ b').isEmpty
      · left
        simp [hmiss, hb']
      · right; right
        exact ⟨b', rfl, by simp [hmiss, hb']⟩

lemma cacheKey_inj {S : Set (List UInt8)} (hS : PrefixFree S) {name name' path path' r r' : List UInt8}
    {d d' : UInt32} (hn : name ∈ S) (hn' : name' ∈ S) (hr : r.length = r'.length)
    (h : appendUint32 (name ++ path) d ++ r = appendUint32 (name' ++ path') d' ++ r') :
    name = name' ∧ path = path' ∧ d = d' ∧ r = r' := by
  simp only [appendUint32, List.append_assoc] at h
  obtain ⟨rfl, hrest⟩ := hS.eq_of_append_eq hn hn' h
  obtain ⟨hpath, hrest⟩ := List.append_inj' hrest (by simp [hr])
  obtain ⟨hd, hr⟩ := putUint32BE_append_inj hrest
  exact ⟨rfl, hpath, hd, hr⟩

lemma Sourced.getNodeBlob_added {ops : List Op} (h : Sourced ops c) {S : Set (List UInt8)}
    (hS : PrefixFree S) (hnames : ∀ n s p b i, Op.add n s p b i ∈ ops → n ∈ S)
    {name path dst : List UInt8} {seq : UInt64} (hn : name ∈ S)
    (hres : c.getNodeBlob name seq path dst ≠ []) :
    ∃ seq' blob isCommitting, Op.add name seq' path blob isCommitting ∈ ops ∧
      commitNum seq' = commitNum seq ∧ distinctNum seq' = distinctNum seq ∧
      c.getNodeBlob name seq path dst = dst ++ blob := by
  rcases getNodeBlob_cases name seq path dst with h0 | ⟨b, hb, hc, heq⟩ | ⟨b, hb, heq⟩
  · exact absurd h0 hres
  · -- a committed entry: its key names the node, its first four bytes the commit number
    obtain ⟨n', s', p', blob, hmem, hk, hv⟩ := h.committed _ _ hb
    obtain ⟨rfl, rfl, hd, -⟩ := cacheKey_inj hS hn (hnames _ _ _ _ _ hmem) rfl
      (by rw [List.append_nil, List.append_nil]; exact hk :
        appendUint32 (name ++ path) (distinctNum seq) ++ [] =
          appendUint32 (n' ++ p') (distinctNum s') ++ [])
    rw [hv, appendUint32, List.nil_append, uint32BE_putUint32BE] at hc
    refine ⟨s', blob, true, hmem, hc, hd.symm, ?_⟩
    rw [heq, hv, appendUint32, List.nil_append, List.drop_left' (putUint32BE_length _)]
  · -- a queried entry: its key names the node and both numbers
    obtain ⟨n', s', p', hmem, hk⟩ := h.queried _ _ hb
    obtain ⟨rfl, rfl, hd, hc⟩ := cacheKey_inj hS hn (hnames _ _ _ _ _ hmem) (by simp) hk
    exact ⟨s', b, false, hmem, (putUint32BE_injective hc).symm, hd.symm, heq⟩

end Cache

end AuthorityBlock.Muxdb
