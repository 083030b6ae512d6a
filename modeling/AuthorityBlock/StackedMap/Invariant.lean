import AuthorityBlock.StackedMap.Basic

/-! The representation invariant of `StackedMap`. A map reachable from `New` is determined by
its levels: each level's `kvs` is the last write of each key in its journal, and the revision
stack of a key lists, from the bottom, exactly the levels whose `kvs` hold it. Every
operation keeps this, and under it `Get` answers the last `Put` still on the stack. -/

namespace AuthorityBlock.StackedMap

open WriteLog

variable {K V : Type} [DecidableEq K]

/-- The levels, lowest first, whose map holds `key`. -/
def levelsWith (levels : List (Level K V)) (key : K) : List ℕ :=
  (List.range levels.length).filter fun i => (levels[i]?.bind fun l => l.kvs.lookup key).isSome

/-- A revision stack as `keyRevisionMap` holds it: deleted when empty. -/
def asStack (s : List ℕ) : Option (List ℕ) := if s = [] then none else some s

/-- The map whose revision stacks are the ones its levels determine. -/
def ofLevels (levels : List (Level K V)) : StackedMap K V :=
  ⟨levels, fun key => asStack (levelsWith levels key)⟩

structure RepInv (sm : StackedMap K V) : Prop where
  tracks : ∀ l ∈ sm.mapStack, Tracks l.kvs l.journal
  revisions : ∀ key, sm.keyRevisionMap key = asStack (levelsWith sm.mapStack key)

lemma RepInv.eq_ofLevels {sm : StackedMap K V} (h : RepInv sm) : sm = ofLevels sm.mapStack := by
  cases sm with
  | mk levels revs =>
    simp only [ofLevels, StackedMap.mk.injEq, true_and]
    funext key
    exact h.revisions key

lemma repInv_ofLevels {levels : List (Level K V)} (h : ∀ l ∈ levels, Tracks l.kvs l.journal) :
    RepInv (ofLevels levels) :=
  ⟨h, fun _ => rfl⟩

@[simp] lemma levelsWith_nil (key : K) : levelsWith ([] : List (Level K V)) key = [] := rfl

lemma levelsWith_concat (levels : List (Level K V)) (l : Level K V) (key : K) :
    levelsWith (levels ++ [l]) key =
      levelsWith levels key ++ if key ∈ l.kvs then [levels.length] else [] := by
  unfold levelsWith
  rw [List.length_append, List.length_singleton, List.range_succ, List.filter_append]
  congr 1
  · apply List.filter_congr
    intro i hi
    rw [List.getElem?_append_left (List.mem_range.mp hi)]
  · by_cases h : key ∈ l.kvs
    · simp [h, AList.lookup_isSome]
    · simp [h, AList.lookup_isSome]

lemma mem_levelsWith {levels : List (Level K V)} {key : K} {i : ℕ} :
    i ∈ levelsWith levels key ↔ ∃ l, levels[i]? = some l ∧ key ∈ l.kvs := by
  simp only [levelsWith, List.mem_filter, List.mem_range, Option.isSome_bind]
  constructor
  · rintro ⟨hi, hl⟩
    refine ⟨levels[i], List.getElem?_eq_getElem hi, ?_⟩
    simpa [List.getElem?_eq_getElem hi, AList.lookup_isSome] using hl
  · rintro ⟨l, hl, hk⟩
    have hi : i < levels.length := (List.getElem?_eq_some_iff.mp hl).1
    exact ⟨hi, by simpa [hl, AList.lookup_isSome] using hk⟩

lemma lt_of_mem_levelsWith {levels : List (Level K V)} {key : K} {i : ℕ}
    (h : i ∈ levelsWith levels key) : i < levels.length := by
  obtain ⟨l, hl, -⟩ := mem_levelsWith.mp h
  exact (List.getElem?_eq_some_iff.mp hl).1

lemma levelsWith_sorted (levels : List (Level K V)) (key : K) :
    (levelsWith levels key).Pairwise (· < ·) :=
  List.pairwise_lt_range.filter _

/-! ## The operations on canonical maps -/

/-- The top level after `Put key value`. -/
def putLevel (top : Level K V) (key : K) (value : V) : Level K V :=
  ⟨top.kvs.insert key value, top.journal ++ [(key, value)]⟩

lemma levelsWith_putLevel (levels : List (Level K V)) (top : Level K V) (key key' : K)
    (value : V) :
    levelsWith (levels ++ [putLevel top key value]) key' =
      if key' = key then levelsWith levels key ++ [levels.length]
      else levelsWith (levels ++ [top]) key' := by
  rw [levelsWith_concat, levelsWith_concat]
  by_cases hk : key' = key
  · subst hk
    simp [putLevel, AList.mem_insert]
  · simp [putLevel, AList.mem_insert, hk]

lemma pushRevision_levelsWith (levels : List (Level K V)) (top : Level K V) (key : K) :
    pushRevision (asStack (levelsWith (levels ++ [top]) key)) levels.length =
      some (levelsWith levels key ++ [levels.length]) := by
  rw [levelsWith_concat]
  by_cases hk : key ∈ top.kvs
  · simp [hk, asStack, pushRevision, Stack.top]
  · simp only [hk, if_false, List.append_nil]
    by_cases hw : levelsWith levels key = []
    · simp [hw, asStack, pushRevision]
    · obtain ⟨t, ht⟩ : ∃ t, (levelsWith levels key).getLast? = some t :=
        Option.ne_none_iff_exists'.mp (by simpa using hw)
      have hlt : t < levels.length := lt_of_mem_levelsWith (List.mem_of_getLast? ht)
      simp [asStack, hw, pushRevision, Stack.top, ht, Stack.push, Nat.ne_of_lt hlt]

lemma put_ofLevels (levels : List (Level K V)) (top : Level K V) (key : K) (value : V) :
    (ofLevels (levels ++ [top])).put key value =
      some (ofLevels (levels ++ [putLevel top key value])) := by
  have hr := pushRevision_levelsWith levels top key
  simp only [put, ofLevels, Stack.top, List.getLast?_concat, Stack.pop, List.dropLast_concat,
    List.length_append, List.length_singleton, Nat.add_sub_cancel, Option.bind_eq_bind,
    Option.bind_some, hr, Option.pure_def, Stack.push,
    List.append_ne_nil_of_right_ne_nil _ (List.cons_ne_nil top []), if_false]
  congr 2
  funext key'
  rw [levelsWith_putLevel]
  by_cases hk : key' = key
  · subst hk
    simp [asStack]
  · simp [hk]

lemma popRevisions_eq (f : K → List ℕ) (n : ℕ) :
    ∀ (keys : List K) (revs : K → Option (List ℕ)), keys.Nodup →
      (∀ key ∈ keys, revs key = some (f key ++ [n])) →
      popRevisions revs keys =
        some (fun key => if key ∈ keys then asStack (f key) else revs key)
  | [], revs, _, _ => by simp [popRevisions]
  | key :: keys, revs, hnd, hrevs => by
    obtain ⟨hkey, hnd'⟩ := List.nodup_cons.mp hnd
    have hrest : ∀ key' ∈ keys,
        Function.update revs key (asStack (f key)) key' = some (f key' ++ [n]) := by
      intro key' hk'
      have hne : key' ≠ key := fun h => hkey (h ▸ hk')
      rw [Function.update_of_ne hne]
      exact hrevs key' (List.mem_cons_of_mem _ hk')
    have ih := popRevisions_eq f n keys _ hnd' hrest
    simp only [popRevisions, hrevs key List.mem_cons_self, Stack.pop, Option.bind_eq_bind,
      Option.bind_some, List.append_ne_nil_of_right_ne_nil _ (List.cons_ne_nil n []), if_false,
      List.dropLast_concat]
    rw [show (if f key = [] then none else some (f key)) = asStack (f key) from rfl, ih]
    congr 1
    funext key'
    by_cases hk : key' = key
    · subst hk
      simp [hkey]
    · simp [hk]

lemma pop_ofLevels {levels : List (Level K V)} {top : Level K V} :
    (ofLevels (levels ++ [top])).pop = some (ofLevels levels) := by
  have hp := popRevisions_eq (fun key => levelsWith levels key) levels.length top.kvs.keys
    (fun key => asStack (levelsWith (levels ++ [top]) key)) top.kvs.keys_nodup (by
      intro key hk
      rw [levelsWith_concat, if_pos (AList.mem_keys.mpr hk)]
      simp [asStack])
  simp only [pop, ofLevels, Stack.top, List.getLast?_concat, Option.bind_eq_bind,
    Option.bind_some, hp, Stack.pop, List.append_ne_nil_of_right_ne_nil _ (List.cons_ne_nil top []),
    if_false, List.dropLast_concat, Option.pure_def, Option.some.injEq, StackedMap.mk.injEq, true_and]
  funext key
  rw [levelsWith_concat]
  by_cases hk : key ∈ top.kvs
  · simp [← AList.mem_keys, hk]
  · simp [← AList.mem_keys, hk]

lemma push_ofLevels (levels : List (Level K V)) :
    (ofLevels levels).push = (ofLevels (levels ++ [newLevel]), levels.length) := by
  simp only [push, ofLevels, Stack.push, Prod.mk.injEq, StackedMap.mk.injEq, true_and, and_true]
  funext key
  rw [levelsWith_concat, if_neg (show key ∉ (newLevel : Level K V).kvs from AList.notMem_empty key),
    List.append_nil]

lemma popTimes_ofLevels (levels : List (Level K V)) (j : ℕ) (hj : j ≤ levels.length) :
    popTimes j (ofLevels levels) = some (ofLevels (levels.take (levels.length - j))) := by
  induction j generalizing levels with
  | zero => simp [popTimes]
  | succ j ih =>
    obtain ⟨init, top, rfl⟩ : ∃ init top, levels = init ++ [top] := by
      have hne : levels ≠ [] := by
        intro h
        simp [h] at hj
      exact ⟨levels.dropLast, levels.getLast hne, (List.dropLast_concat_getLast hne).symm⟩
    simp only [List.length_append, List.length_singleton] at hj
    rw [popTimes, pop_ofLevels, Option.bind_some, ih init (by omega)]
    rw [List.length_append, List.length_singleton,
      List.take_append_of_le_length (by omega : init.length + 1 - (j + 1) ≤ init.length)]
    congr 3
    omega

end AuthorityBlock.StackedMap

namespace AuthorityBlock.StackedMap

open WriteLog

variable {K V : Type} [DecidableEq K]

lemma lookup_concat_of_not_mem (levels : List (Level K V)) (l : Level K V) (key : K)
    (hk : key ∉ l.kvs) : (ofLevels (levels ++ [l])).lookup key = (ofLevels levels).lookup key := by
  simp only [lookup, ofLevels, levelsWith_concat, hk, if_false, List.append_nil]
  cases hs : asStack (levelsWith levels key) with
  | none => rfl
  | some revs =>
    have hrevs : revs = levelsWith levels key := by
      unfold asStack at hs
      split at hs
      · cases hs
      · exact (Option.some.inj hs).symm
    cases ht : Stack.top revs with
    | none => simp [ht]
    | some t =>
      have hlt : t < levels.length := lt_of_mem_levelsWith (hrevs ▸ List.mem_of_getLast? ht)
      simp [ht, List.getElem?_append_left hlt]

lemma lookup_ofLevels (levels : List (Level K V)) (h : ∀ l ∈ levels, Tracks l.kvs l.journal)
    (key : K) : (ofLevels levels).lookup key = some (lastWrite (levels.flatMap Level.journal) key) := by
  induction levels using List.reverseRecOn with
  | nil => simp [lookup, ofLevels, asStack]
  | append_singleton levels l ih =>
    have hl : Tracks l.kvs l.journal := h l (by simp)
    have ih := ih (fun l' hl' => h l' (List.mem_append_left _ hl'))
    rw [List.flatMap_append, List.flatMap_singleton, lastWrite_append]
    by_cases hk : key ∈ l.kvs
    · -- the top level holds the key: its journal has the last write
      obtain ⟨v, hv⟩ := Option.isSome_iff_exists.mp (AList.lookup_isSome.mpr hk)
      have hw : lastWrite l.journal key = some v := (hl key).symm.trans hv
      simp [lookup, ofLevels, levelsWith_concat, hk, asStack, Stack.top,
        hv, hw]
    · have hn : lastWrite l.journal key = none := by
        rw [← hl key]
        exact AList.lookup_eq_none.mpr hk
      rw [hn, Option.none_or, ← ih]
      exact lookup_concat_of_not_mem levels l key hk

lemma RepInv.lookup_eq {sm : StackedMap K V} (h : RepInv sm) (key : K) :
    sm.lookup key = some (lastWrite sm.entries key) := by
  rw [h.eq_ofLevels]
  exact lookup_ofLevels _ h.tracks key

lemma RepInv.get_eq {ε : Type} {sm : StackedMap K V} (h : RepInv sm)
    (src : K → Except ε (Option V)) (key : K) :
    sm.get src key = some (hitOrSrc src key (lastWrite sm.entries key)) := by
  rw [get, h.lookup_eq]
  rfl

/-! ## Runs -/

lemma repInv_new : RepInv (new : StackedMap K V) :=
  ⟨by simp [new, newLevel, tracks_empty], fun key => by
    simp [new, levelsWith, newLevel, asStack, AList.lookup_empty]⟩

lemma exists_concat_of_ne_nil {α : Type} {l : List α} (h : l ≠ []) :
    ∃ init last, l = init ++ [last] :=
  ⟨l.dropLast, l.getLast h, (List.dropLast_concat_getLast h).symm⟩

lemma tracks_putLevel {top : Level K V} (h : Tracks top.kvs top.journal) (key : K) (value : V) :
    Tracks (putLevel top key value).kvs (putLevel top key value).journal :=
  h.insert key value

lemma RepInv.apply_eq {sm sm' : StackedMap K V} (h : RepInv sm) {op : Op K V}
    (hop : op.apply sm = some sm') :
    (∃ levels top key value, sm.mapStack = levels ++ [top] ∧
        sm' = ofLevels (levels ++ [putLevel top key value])) ∨
      sm' = ofLevels (sm.mapStack ++ [newLevel]) ∨
      (∃ levels top, sm.mapStack = levels ++ [top] ∧ sm' = ofLevels levels) ∨
      (∃ depth, sm' = ofLevels (sm.mapStack.take depth)) := by
  rw [h.eq_ofLevels] at hop
  cases op with
  | put key value =>
    by_cases hne : sm.mapStack = []
    · simp [Op.apply, put, ofLevels, hne, Stack.top] at hop
    · obtain ⟨levels, top, hl⟩ := exists_concat_of_ne_nil hne
      rw [Op.apply, hl, put_ofLevels] at hop
      exact Or.inl ⟨levels, top, key, value, hl, (Option.some.inj hop).symm⟩
  | push =>
    rw [Op.apply, push_ofLevels] at hop
    exact Or.inr (Or.inl (Option.some.inj hop).symm)
  | pop =>
    by_cases hne : sm.mapStack = []
    · simp [Op.apply, pop, ofLevels, hne, Stack.top] at hop
    · obtain ⟨levels, top, hl⟩ := exists_concat_of_ne_nil hne
      rw [Op.apply, hl, pop_ofLevels] at hop
      exact Or.inr (Or.inr (Or.inl ⟨levels, top, hl, (Option.some.inj hop).symm⟩))
  | popTo depth =>
    rw [Op.apply, popTo] at hop
    change popTimes (sm.mapStack.length - depth) (ofLevels sm.mapStack) = some sm' at hop
    rw [popTimes_ofLevels _ _ (Nat.sub_le _ _)] at hop
    exact Or.inr (Or.inr (Or.inr ⟨_, (Option.some.inj hop).symm⟩))

lemma RepInv.apply {sm sm' : StackedMap K V} (h : RepInv sm) {op : Op K V}
    (hop : op.apply sm = some sm') : RepInv sm' := by
  rcases h.apply_eq hop with ⟨levels, top, key, value, hl, rfl⟩ | rfl | ⟨levels, top, hl, rfl⟩ |
      ⟨depth, rfl⟩
  · have ht := h.tracks
    rw [hl] at ht
    apply repInv_ofLevels
    intro l hmem
    rcases List.mem_append.mp hmem with hmem | hmem
    · exact ht l (List.mem_append_left _ hmem)
    · rw [List.mem_singleton.mp hmem]
      exact tracks_putLevel (ht top (by simp)) key value
  · apply repInv_ofLevels
    intro l hmem
    rcases List.mem_append.mp hmem with hmem | hmem
    · exact h.tracks l hmem
    · rw [List.mem_singleton.mp hmem]
      exact tracks_empty
  · apply repInv_ofLevels
    intro l hmem
    exact h.tracks l (hl ▸ List.mem_append_left _ hmem)
  · exact repInv_ofLevels fun l hmem => h.tracks l (List.mem_of_mem_take hmem)

lemma RepInv.of_run {sm sm' : StackedMap K V} (h : RepInv sm) {ops : List (Op K V)}
    (hr : StackedMap.run sm ops = some sm') : RepInv sm' := by
  induction ops generalizing sm with
  | nil =>
    cases hr
    exact h
  | cons op ops ih =>
    cases hop : op.apply sm with
    | none => simp [StackedMap.run, hop] at hr
    | some sm₁ =>
      rw [StackedMap.run, hop, Option.bind_some] at hr
      exact ih (h.apply hop) hr

/-- The runs after a `Push` that never pop the pushed level. -/
def StaysAbove (d : ℕ) : StackedMap K V → List (Op K V) → Prop
  | _, [] => True
  | sm, op :: ops => ∀ sm', op.apply sm = some sm' → d < sm'.depth ∧ StaysAbove d sm' ops

instance decidableStaysAbove (d : ℕ) :
    ∀ (sm : StackedMap K V) (ops : List (Op K V)), Decidable (StaysAbove d sm ops)
  | _, [] => isTrue trivial
  | sm, op :: ops =>
    match h : op.apply sm with
    | none => isTrue fun sm' h' => absurd (h.symm.trans h') (by simp)
    | some sm' =>
      if hd : d < sm'.depth then
        match decidableStaysAbove d sm' ops with
        | isTrue hs => isTrue fun sm'' h' => Option.some.inj (h.symm.trans h') ▸ ⟨hd, hs⟩
        | isFalse hs => isFalse fun hall => hs (hall sm' h).2
      else isFalse fun hall => hd (hall sm' h).1

lemma RepInv.apply_take {sm sm' : StackedMap K V} (h : RepInv sm) {op : Op K V}
    (hop : op.apply sm = some sm') {d : ℕ} (hd : d < sm.depth) (hd' : d < sm'.depth) :
    sm'.mapStack.take d = sm.mapStack.take d := by
  unfold depth at hd hd'
  rcases h.apply_eq hop with ⟨levels, top, key, value, hl, rfl⟩ | rfl | ⟨levels, top, hl, rfl⟩ |
      ⟨depth, rfl⟩
  · simp only [ofLevels, List.length_append, List.length_singleton] at hd' ⊢
    rw [hl, List.take_append_of_le_length (by omega), List.take_append_of_le_length (by omega)]
  · simp only [ofLevels] at hd' ⊢
    rw [List.take_append_of_le_length (by omega)]
  · simp only [ofLevels] at hd' ⊢
    rw [hl, List.take_append_of_le_length (by omega)]
  · simp only [ofLevels, List.length_take] at hd' ⊢
    rw [List.take_take, Nat.min_eq_left (by omega)]

lemma RepInv.run_take {sm sm' : StackedMap K V} (h : RepInv sm) {ops : List (Op K V)} {d : ℕ}
    (hs : StaysAbove d sm ops) (hd : d < sm.depth) (hr : StackedMap.run sm ops = some sm') :
    d < sm'.depth ∧ sm'.mapStack.take d = sm.mapStack.take d := by
  induction ops generalizing sm with
  | nil =>
    cases hr
    exact ⟨hd, rfl⟩
  | cons op ops ih =>
    cases hop : op.apply sm with
    | none => simp [StackedMap.run, hop] at hr
    | some sm₁ =>
      rw [StackedMap.run, hop, Option.bind_some] at hr
      obtain ⟨hd₁, hs₁⟩ := hs sm₁ hop
      obtain ⟨hd', htake⟩ := ih (h.apply hop) hs₁ hd₁ hr
      exact ⟨hd', htake.trans (h.apply_take hop hd hd₁)⟩

@[simp] lemma ofLevels_mapStack (levels : List (Level K V)) :
    (ofLevels levels).mapStack = levels := rfl

lemma RepInv.push_eq {sm : StackedMap K V} (h : RepInv sm) :
    sm.push = (ofLevels (sm.mapStack ++ [newLevel]), sm.mapStack.length) := by
  conv_lhs => rw [h.eq_ofLevels]
  exact push_ofLevels _

lemma RepInv.popTo_eq {sm : StackedMap K V} (h : RepInv sm) {d : ℕ} (hd : d ≤ sm.depth) :
    sm.popTo d = some (ofLevels (sm.mapStack.take d)) := by
  conv_lhs => rw [h.eq_ofLevels]
  rw [popTo, ofLevels_mapStack, popTimes_ofLevels _ _ (Nat.sub_le _ _),
    Nat.sub_sub_self (show d ≤ sm.mapStack.length from hd)]

lemma RepInv.popTo_push {sm sm' : StackedMap K V} (h : RepInv sm) {ops : List (Op K V)}
    (hs : StaysAbove sm.push.2 sm.push.1 ops) (hr : StackedMap.run sm.push.1 ops = some sm') :
    sm'.popTo sm.push.2 = some sm := by
  rw [h.push_eq] at hs hr ⊢
  dsimp only at hs hr ⊢
  have hop : (Op.push : Op K V).apply sm = some (ofLevels (sm.mapStack ++ [newLevel])) := by
    rw [Op.apply, h.push_eq]
  have h₁ := h.apply hop
  obtain ⟨hd, htake⟩ := h₁.run_take hs (by simp [depth]) hr
  rw [(h₁.of_run hr).popTo_eq (Nat.le_of_lt hd), htake, ofLevels_mapStack, List.take_left' rfl,
    ← h.eq_ofLevels]

/-! ## The puts of the operations -/

/-- The puts of a run still on the stack, level by level, read off the operations alone: a put
goes to the top level, a push opens a level, a pop closes the top one and `PopTo d` keeps the
lowest `d`. -/
def Op.live : Op K V → List (List (K × V)) → List (List (K × V))
  | .put key value, levels => levels.dropLast ++ [levels.getLast?.getD [] ++ [(key, value)]]
  | .push, levels => levels ++ [[]]
  | .pop, levels => levels.dropLast
  | .popTo depth, levels => levels.take depth

def livePuts (levels : List (List (K × V))) (ops : List (Op K V)) : List (List (K × V)) :=
  ops.foldl (fun levels op => op.live levels) levels

lemma RepInv.journals_apply {sm sm' : StackedMap K V} (h : RepInv sm) {op : Op K V}
    (hop : op.apply sm = some sm') :
    sm'.mapStack.map Level.journal = op.live (sm.mapStack.map Level.journal) := by
  rw [h.eq_ofLevels] at hop
  cases op with
  | put key value =>
    by_cases hne : sm.mapStack = []
    · simp [Op.apply, put, ofLevels, hne, Stack.top] at hop
    · obtain ⟨levels, top, hl⟩ := exists_concat_of_ne_nil hne
      rw [Op.apply, hl, put_ofLevels] at hop
      obtain rfl := Option.some.inj hop
      simp [Op.live, hl, putLevel]
  | push =>
    rw [Op.apply, push_ofLevels] at hop
    obtain rfl := Option.some.inj hop
    simp [Op.live, newLevel]
  | pop =>
    by_cases hne : sm.mapStack = []
    · simp [Op.apply, pop, ofLevels, hne, Stack.top] at hop
    · obtain ⟨levels, top, hl⟩ := exists_concat_of_ne_nil hne
      rw [Op.apply, hl, pop_ofLevels] at hop
      obtain rfl := Option.some.inj hop
      simp [Op.live, hl]
  | popTo depth =>
    rw [Op.apply, popTo] at hop
    change popTimes (sm.mapStack.length - depth) (ofLevels sm.mapStack) = some sm' at hop
    rw [popTimes_ofLevels _ _ (Nat.sub_le _ _)] at hop
    obtain rfl := Option.some.inj hop
    -- `PopTo` keeps the lowest `min depth len` levels, which is `take depth`
    rw [ofLevels_mapStack, Nat.sub_sub_eq_min, Op.live, List.map_take, List.take_eq_take_iff]
    simp [Nat.min_comm]

lemma RepInv.journals_run {sm sm' : StackedMap K V} (h : RepInv sm) {ops : List (Op K V)}
    (hr : StackedMap.run sm ops = some sm') :
    sm'.mapStack.map Level.journal = livePuts (sm.mapStack.map Level.journal) ops := by
  induction ops generalizing sm with
  | nil =>
    cases hr
    rfl
  | cons op ops ih =>
    cases hop : op.apply sm with
    | none => simp [StackedMap.run, hop] at hr
    | some sm₁ =>
      rw [StackedMap.run, hop, Option.bind_some] at hr
      rw [ih (h.apply hop) hr, h.journals_apply hop]
      rfl

/-- The revision stack of `key` as the source keeps it: a strictly increasing stack of exactly
the levels that hold the key, and no stack at all when none does. -/
def RevisionStackExact (sm : StackedMap K V) (key : K) : Prop :=
  match sm.keyRevisionMap key with
  | none => ∀ (i : ℕ) (l : Level K V), sm.mapStack[i]? = some l → key ∉ l.kvs
  | some s => s ≠ [] ∧ s.Pairwise (· < ·) ∧
      ∀ i : ℕ, i ∈ s ↔ ∃ l : Level K V, sm.mapStack[i]? = some l ∧ key ∈ l.kvs

lemma RepInv.revisionStackExact {sm : StackedMap K V} (h : RepInv sm) (key : K) :
    RevisionStackExact sm key := by
  unfold RevisionStackExact
  rw [h.revisions key]
  by_cases hw : levelsWith sm.mapStack key = []
  · simp only [asStack, hw, if_true]
    intro i l hl hk
    have hi : i ∈ levelsWith sm.mapStack key := mem_levelsWith.mpr ⟨l, hl, hk⟩
    simp [hw] at hi
  · simp only [asStack, hw, if_false]
    exact ⟨hw, levelsWith_sorted _ _, fun i => mem_levelsWith⟩

theorem run_new_invariant_get_restore {ε σ : Type} {ops : List (Op K V)} {sm : StackedMap K V}
    (hr : StackedMap.run new ops = some sm) :
    (∀ l ∈ sm.mapStack, ∀ key, l.kvs.lookup key = lastWrite l.journal key) ∧
    (∀ key, RevisionStackExact sm key) ∧
    (∀ (src : K → Except ε (Option V)) key,
      sm.get src key = some (hitOrSrc src key (lastWrite (livePuts [[]] ops).flatten key))) ∧
    (∀ (cb : K → V → σ → Bool × σ) s, sm.journal cb s = traverse cb (livePuts [[]] ops).flatten s) ∧
    (∀ ops' sm', StaysAbove sm.push.2 sm.push.1 ops' → StackedMap.run sm.push.1 ops' = some sm' →
      sm'.popTo sm.push.2 = some sm) := by
  have h := repInv_new.of_run hr
  -- the model's journals are the puts of `ops` still on the stack
  have hputs : sm.entries = (livePuts [[]] ops).flatten := by
    rw [entries, List.flatMap_def, repInv_new.journals_run hr]
    rfl
  refine ⟨h.tracks, h.revisionStackExact, fun src key => ?_, fun cb s => ?_,
    fun _ _ hs hr' => h.popTo_push hs hr'⟩
  · rw [h.get_eq, hputs]
  · rw [journal, hputs]

theorem run_new_invariant_get_restore_two_levels :
    ∃ sm, StackedMap.run (new : StackedMap ℕ ℕ) [.put 1 2, .push, .put 1 3, .put 4 5] = some sm ∧
      (∀ l ∈ sm.mapStack, ∀ key, l.kvs.lookup key = lastWrite l.journal key) ∧
      (∀ key, RevisionStackExact sm key) ∧
      (∀ (src : ℕ → Except Unit (Option ℕ)) key, sm.get src key = some (hitOrSrc src key
        (lastWrite (livePuts [[]] [.put 1 2, .push, .put 1 3, .put 4 5]).flatten key))) ∧
      (∀ (cb : ℕ → ℕ → ℕ → Bool × ℕ) s, sm.journal cb s =
        traverse cb (livePuts [[]] [.put 1 2, .push, .put 1 3, .put 4 5]).flatten s) ∧
      StaysAbove sm.push.2 sm.push.1 [.put 1 7, .push, .put 6 8, .pop] ∧
      ∃ sm', StackedMap.run sm.push.1 [.put 1 7, .push, .put 6 8, .pop] = some sm' ∧
        sm'.popTo sm.push.2 = some sm := by
  obtain ⟨sm, hsm⟩ := Option.isSome_iff_exists.mp
    (rfl : (StackedMap.run (new : StackedMap ℕ ℕ) [.put 1 2, .push, .put 1 3, .put 4 5]).isSome)
  obtain ⟨h₁, h₂, h₃, h₄, h₅⟩ := run_new_invariant_get_restore (ε := Unit) (σ := ℕ) hsm
  -- after the push, a put, a nested push and its pop stay above the pushed level
  have hs : StaysAbove sm.push.2 sm.push.1 [.put 1 7, .push, .put 6 8, .pop] := by
    rw [Option.some.inj (hsm.symm.trans (Option.some_get rfl).symm)]
    decide
  obtain ⟨sm', hsm'⟩ := Option.isSome_iff_exists.mp (show
    (StackedMap.run sm.push.1 [.put 1 7, .push, .put 6 8, .pop]).isSome by
      rw [Option.some.inj (hsm.symm.trans (Option.some_get rfl).symm)]
      rfl)
  exact ⟨sm, hsm, h₁, h₂, h₃, h₄, hs, sm', hsm', h₅ _ _ hs hsm'⟩

end AuthorityBlock.StackedMap
