import AuthorityBlock.Lib.LastWrite

/-! The model of `stackedmap/stackedmap.go`. Go's `stack` is a slice whose last element is
its top; a level's `kvs` is a Go map, kept as an association list because `Pop` iterates over
its keys; `keyRevisionMap` is only read and written by key. A panic of the Go code (an empty
stack, a missing revision stack, an index out of range) is `none`. -/

namespace AuthorityBlock.StackedMap

open WriteLog

variable {K V : Type} [DecidableEq K]

namespace Stack

def top {α : Type} (s : List α) : Option α := s.getLast?

def pop {α : Type} (s : List α) : Option (List α) := if s = [] then none else some s.dropLast

def push {α : Type} (s : List α) (v : α) : List α := s ++ [v]

end Stack

structure Level (K V : Type) where
  kvs : AList (fun _ : K => V)
  journal : List (K × V)

def newLevel : Level K V := ⟨∅, []⟩

end AuthorityBlock.StackedMap

namespace AuthorityBlock

open WriteLog StackedMap

structure StackedMap (K V : Type) where
  mapStack : List (Level K V)
  keyRevisionMap : K → Option (List ℕ)

namespace StackedMap

variable {K V : Type} [DecidableEq K]

/-- `New`: one empty level. The source getter is not stored; `Get` takes it. -/
def new : StackedMap K V := ⟨[newLevel], fun _ => none⟩

def depth (sm : StackedMap K V) : ℕ := sm.mapStack.length

/-- `Push` returns the map and the depth before the push. -/
def push (sm : StackedMap K V) : StackedMap K V × ℕ :=
  (⟨Stack.push sm.mapStack newLevel, sm.keyRevisionMap⟩, sm.mapStack.length)

/-- The loop of `Pop` over the keys of the top level: each key's revision stack loses its
top, and an emptied stack is deleted. -/
def popRevisions (revs : K → Option (List ℕ)) : List K → Option (K → Option (List ℕ))
  | [] => some revs
  | key :: keys => do
    let s ← revs key
    let s' ← Stack.pop s
    popRevisions (Function.update revs key (if s' = [] then none else some s')) keys

def pop (sm : StackedMap K V) : Option (StackedMap K V) := do
  let top ← Stack.top sm.mapStack
  let revs ← popRevisions sm.keyRevisionMap top.kvs.keys
  let levels ← Stack.pop sm.mapStack
  pure ⟨levels, revs⟩

def popTimes : ℕ → StackedMap K V → Option (StackedMap K V)
  | 0, sm => some sm
  | n + 1, sm => (pop sm).bind (popTimes n)

/-- `PopTo` pops while the stack is deeper than `depth`: each `Pop` removes one level, so
this is `len - depth` pops. -/
def popTo (sm : StackedMap K V) (depth : ℕ) : Option (StackedMap K V) :=
  popTimes (sm.mapStack.length - depth) sm

/-- The part of `Get` before the fall-back to `src`: `some (some v)` is a hit at the level
named by the top of the key's revision stack, `some none` a miss. -/
def lookup (sm : StackedMap K V) (key : K) : Option (Option V) :=
  match sm.keyRevisionMap key with
  | none => some none
  | some revs => do
    let rev ← Stack.top revs
    let lvl ← sm.mapStack[rev]?
    pure (lvl.kvs.lookup key)

/-- A hit is returned as found; a miss asks `src`. -/
def hitOrSrc {ε : Type} (src : K → Except ε (Option V)) (key : K) :
    Option V → Except ε (Option V)
  | some v => .ok (some v)
  | none => src key

def get {ε : Type} (sm : StackedMap K V) (src : K → Except ε (Option V)) (key : K) :
    Option (Except ε (Option V)) :=
  (sm.lookup key).map (hitOrSrc src key)

/-- The revision bookkeeping of `Put`: push the top level's index unless it is already the
top of the key's stack; a key without a stack gets a new one. -/
def pushRevision (revs : Option (List ℕ)) (rev : ℕ) : Option (List ℕ) :=
  match revs with
  | some s => do
    let t ← Stack.top s
    pure (if t ≠ rev then Stack.push s rev else s)
  | none => pure [rev]

def put (sm : StackedMap K V) (key : K) (value : V) : Option (StackedMap K V) := do
  let top ← Stack.top sm.mapStack
  let levels ← Stack.pop sm.mapStack
  let rev := sm.mapStack.length - 1
  let revs ← pushRevision (sm.keyRevisionMap key) rev
  pure ⟨Stack.push levels ⟨top.kvs.insert key value, top.journal ++ [(key, value)]⟩,
    Function.update sm.keyRevisionMap key (some revs)⟩

/-- Every `Put` still on the stack, lowest level first. -/
def entries (sm : StackedMap K V) : List (K × V) := sm.mapStack.flatMap Level.journal

/-- A traversal that hands each entry to the callback and stops when it returns `false`. -/
def traverse {σ : Type} (cb : K → V → σ → Bool × σ) : List (K × V) → σ → σ
  | [], s => s
  | (k, v) :: es, s =>
    match cb k v s with
    | (true, s') => traverse cb es s'
    | (false, s') => s'

/-- `Journal`: the nested loop over levels and their journals visits `entries` in order. -/
def journal {σ : Type} (sm : StackedMap K V) (cb : K → V → σ → Bool × σ) (s : σ) : σ :=
  traverse cb sm.entries s

omit [DecidableEq K] in
lemma traverse_eq_foldl {σ : Type} (cb : K → V → σ → Bool × σ) (f : σ → K × V → σ)
    (hcb : ∀ k v s, cb k v s = (true, f s (k, v))) (es : List (K × V)) (s : σ) :
    traverse cb es s = es.foldl f s := by
  induction es generalizing s with
  | nil => rfl
  | cons e es ih =>
    obtain ⟨k, v⟩ := e
    rw [traverse, hcb, List.foldl_cons]
    exact ih _

inductive Op (K V : Type)
  | put (key : K) (value : V)
  | push
  | pop
  | popTo (depth : ℕ)

def Op.apply : Op K V → StackedMap K V → Option (StackedMap K V)
  | .put key value, sm => sm.put key value
  | .push, sm => some sm.push.1
  | .pop, sm => sm.pop
  | .popTo depth, sm => sm.popTo depth

def run : StackedMap K V → List (Op K V) → Option (StackedMap K V)
  | sm, [] => some sm
  | sm, op :: ops => (op.apply sm).bind (run · ops)

end AuthorityBlock.StackedMap
