import Reverb.Sample

/-!
# `Sample` の二つの取り出し方

`GetNextTimestep` を繰り返し呼ぶことと `AsBatchedTimesteps` が、同じ行を同じ順に渡すことを示す。

1. まだ返していない行を `timesteps` として表し、`getNextTimestep` の一歩がその先頭を返して
   残りを一つ縮めることを示す（`getNextTimestep_valid`）。
2. `n` についての帰納法で、`n` 回の呼び出しが先頭の `n` 行を返すことを示す（`takeTimesteps_eq`）。
3. 新しい sample の行を、`j` 番目の tensor をつないだ列 `column j` の行として並べ直す
   （`flatMap_chunkRows`）。
4. `AsBatchedTimesteps` の `data_tensors[j]` が各 chunk の `j` 番目の tensor を並べたもので、
   その `Concat` が列 `column j` であることを示す（`asBatchedTimesteps_new`）。
-/

namespace Reverb

open Tensor

namespace Sample

variable {ε : Type}

/-- chunk の `i` 行目：各 tensor の `SubSlice(i)`。 -/
def row (c : List (Tensor ε)) (i : Nat) : List (Tensor ε) := c.map fun t => t.rows.getD i default

/-- chunk の `start` 行目から後の行。 -/
def chunkRows (c : List (Tensor ε)) (start : Nat) : List (List (Tensor ε)) :=
  (List.range' start (chunkLength c - start)).map (row c)

/-- まだ返していない行。先頭の chunk は `next_timestep_index_` 行目から。 -/
def timesteps (s : Sample ε) : List (List (Tensor ε)) :=
  match s.chunks with
  | [] => []
  | c :: cs => chunkRows c s.nextTimestepIndex ++ cs.flatMap (chunkRows · 0)

/-- `GetNextTimestep` が行を取り出せる sample：どの chunk も行を持ち、index は先頭の chunk の中。 -/
structure Valid (s : Sample ε) : Prop where
  chunks : ∀ c ∈ s.chunks, ChunkValid c
  index : ∀ c cs, s.chunks = c :: cs → s.nextTimestepIndex < chunkLength c

/-- `GetNextTimestep` を `n` 回呼ぶ。 -/
def takeTimesteps : Nat → Sample ε → Option (List (List (Tensor ε)) × Sample ε)
  | 0, s => some ([], s)
  | n + 1, s => do
    let (x, s') ← s.getNextTimestep
    let (xs, s'') ← takeTimesteps n s'
    some (x :: xs, s'')

/-! ## 一歩 -/

theorem chunkRows_of_lt {c : List (Tensor ε)} {i : Nat} (h : i < chunkLength c) :
    chunkRows c i = row c i :: chunkRows c (i + 1) := by
  rw [chunkRows, show chunkLength c - i = chunkLength c - (i + 1) + 1 by omega, List.range'_succ]
  rfl

@[simp] theorem chunkRows_chunkLength (c : List (Tensor ε)) : chunkRows c (chunkLength c) = [] := by
  simp [chunkRows]

theorem timesteps_of_index_zero {s : Sample ε} (h : s.nextTimestepIndex = 0) :
    s.timesteps = s.chunks.flatMap (chunkRows · 0) := by
  unfold timesteps
  split <;> simp_all

theorem timesteps_eq_nil_iff {s : Sample ε} (hs : s.Valid) : s.timesteps = [] ↔ s.chunks = [] := by
  cases hcs : s.chunks with
  | nil => simp [timesteps, hcs]
  | cons c cs => simp [timesteps, hcs, chunkRows_of_lt (hs.index c cs hcs)]

theorem mapM_subSlice {c : List (Tensor ε)} {i : Nat} (h : ∀ t ∈ c, i < t.dimSize0) :
    c.mapM (fun t => t.subSlice i) = some (row c i) :=
  mapM_eq_some_map fun t ht => by
    rw [subSlice_eq, List.getElem?_eq_getElem (h t ht), List.getD_eq_getElem]

/-- **一歩**：`GetNextTimestep` は残りの行の先頭を返し、残りを一つ縮める。 -/
theorem getNextTimestep_valid {s : Sample ε} (hs : s.Valid) (hne : s.chunks ≠ []) :
    ∃ x s', s.getNextTimestep = some (s.meta ++ x, s') ∧ s.timesteps = x :: s'.timesteps ∧
      s'.Valid ∧ s'.meta = s.meta := by
  obtain ⟨c, cs, hcs⟩ := List.exists_cons_of_ne_nil hne
  obtain ⟨hc, hpos, hrows⟩ := hs.chunks c (by simp [hcs])
  have hi := hs.index c cs hcs
  obtain ⟨t₀, ts, rfl⟩ := List.exists_cons_of_ne_nil hc
  have hslices := mapM_subSlice (c := t₀ :: ts) (i := s.nextTimestepIndex)
    fun t ht => hrows t ht ▸ hi
  have htime : s.timesteps
      = chunkRows (t₀ :: ts) s.nextTimestepIndex ++ cs.flatMap (chunkRows · 0) := by
    simp only [timesteps, hcs]
  rw [chunkRows_of_lt hi] at htime
  have hlen : chunkLength (t₀ :: ts) = t₀.dimSize0 := rfl
  by_cases hend : s.nextTimestepIndex + 1 = t₀.dimSize0
  · refine ⟨row (t₀ :: ts) s.nextTimestepIndex,
      { s with chunks := cs, nextTimestepIndex := 0, nextTimestepCalled := true }, ?_, ?_, ?_, rfl⟩
    · simp only [getNextTimestep, hcs, hslices]
      simp [hend]
    · rw [htime, timesteps_of_index_zero rfl, hend, ← hlen, chunkRows_chunkLength]
      rfl
    · exact ⟨fun c' hc' => hs.chunks c' (by simp [hcs, hc']),
        fun c' cs' h => (hs.chunks c' (by
          rw [hcs, show cs = c' :: cs' from h]; simp)).2.1⟩
  · refine ⟨row (t₀ :: ts) s.nextTimestepIndex,
      { s with nextTimestepIndex := s.nextTimestepIndex + 1, nextTimestepCalled := true },
      ?_, ?_, ?_, rfl⟩
    · simp only [getNextTimestep, hcs, hslices]
      simp [hend]
    · rw [htime]
      simp [timesteps, hcs]
    · exact ⟨hs.chunks, fun c' cs' h => by
        obtain ⟨rfl, rfl⟩ : t₀ :: ts = c' ∧ cs = cs' := by simpa [hcs] using h
        show s.nextTimestepIndex + 1 < chunkLength (t₀ :: ts)
        omega⟩

/-- 行を返せたなら、呼ぶ前の sample は終わっていない。 -/
theorem isEndOfSample_of_getNextTimestep {s : Sample ε} {x : List (Tensor ε) × Sample ε}
    (h : s.getNextTimestep = some x) : s.isEndOfSample = false :=
  Bool.eq_false_iff.2 fun he => by simp [getNextTimestep_nil ((isEndOfSample_iff s).1 he)] at h

/-- **`n` 回**：`GetNextTimestep` を `n` 回呼ぶと、残りの行の先頭 `n` 個を順に返す。 -/
theorem takeTimesteps_eq {n : Nat} {s : Sample ε} (hs : s.Valid) (hn : n ≤ s.timesteps.length) :
    ∃ s', s.takeTimesteps n = some ((s.timesteps.take n).map (s.meta ++ ·), s') ∧
      s'.timesteps = s.timesteps.drop n ∧ s'.Valid ∧ s'.meta = s.meta := by
  induction n generalizing s with
  | zero => exact ⟨s, rfl, rfl, hs, rfl⟩
  | succ n ih =>
    have hne : s.chunks ≠ [] := fun h => by
      simp [(timesteps_eq_nil_iff hs).2 h] at hn
    obtain ⟨x, s₁, hget, htime, hs₁, hmeta⟩ := getNextTimestep_valid hs hne
    rw [htime] at hn ⊢
    obtain ⟨s', htake, htime', hs', hmeta'⟩ := ih hs₁ (by simpa using hn)
    refine ⟨s', ?_, htime', hs', hmeta'.trans hmeta⟩
    simp [takeTimesteps, hget, htake, hmeta]

/-- `GetNextTimestep` を使い切るまで呼ぶ。最後に sample は終わり、次の呼び出しは `CHECK` で落ちる。 -/
theorem takeTimesteps_all {s : Sample ε} (hs : s.Valid) :
    ∃ s', s.takeTimesteps s.timesteps.length = some (s.timesteps.map (s.meta ++ ·), s') ∧
      s'.isEndOfSample = true ∧ s'.getNextTimestep = none := by
  obtain ⟨s', htake, htime, hs', -⟩ := takeTimesteps_eq hs (le_refl _)
  have hend : s'.chunks = [] := (timesteps_eq_nil_iff hs').1 (by simp [htime])
  exact ⟨s', by simpa using htake, by simp [hend], getNextTimestep_nil hend⟩

/-- 行が残る間は、sample は終わらない。 -/
theorem takeTimesteps_lt {m : Nat} {s : Sample ε} (hs : s.Valid) (hm : m < s.timesteps.length) :
    ∃ xs s', s.takeTimesteps m = some (xs, s') ∧ s'.isEndOfSample = false := by
  obtain ⟨s', htake, htime, hs', -⟩ := takeTimesteps_eq hs hm.le
  refine ⟨_, s', htake, ?_⟩
  have : s'.timesteps ≠ [] := by simp [htime]; omega
  exact Bool.eq_false_iff.2 fun h => this ((timesteps_eq_nil_iff hs').2 ((isEndOfSample_iff _).1 h))

/-! ## 新しい sample -/

theorem getD_dimSize0 {k j : Nat} {c : List (Tensor ε)} (hc : c.length = k ∧ ChunkValid c)
    (hj : j < k) : (c.getD j default).dimSize0 = chunkLength c := by
  rw [List.getD_eq_getElem _ _ (hc.1 ▸ hj)]
  exact hc.2.2.2 _ (List.getElem_mem _)

theorem map_eq_map_range_getD {α β : Type} [Inhabited α] {k : Nat} {c : List α} (h : c.length = k)
    (f : α → β) : c.map f = (List.range k).map fun j => f (c.getD j default) := by
  subst h
  apply List.ext_getElem (by simp)
  intro i h₁ h₂
  simp only [List.getElem_map, List.getElem_range, List.getD_eq_getElem _ _ (by simpa using h₁)]

/-- 新しい sample の行を、`j` 番目の tensor をつないだ列 `column j` の行として並べ直す。 -/
theorem flatMap_chunkRows {k : Nat} {chunks : List (List (Tensor ε))}
    (hc : ∀ c ∈ chunks, c.length = k ∧ ChunkValid c) :
    chunks.flatMap (chunkRows · 0) = (List.range (chunks.map chunkLength).sum).map
      fun t => (List.range k).map fun j => (column j chunks).getD t default := by
  induction chunks with
  | nil => rfl
  | cons c cs ih =>
    have hcv := hc c (List.mem_cons_self _ _)
    have hlen := fun j (hj : j < k) => getD_dimSize0 hcv hj
    rw [List.flatMap_cons, ih fun c' h => hc c' (List.mem_cons_of_mem _ h), List.map_cons,
      List.sum_cons, List.range_add, List.map_append, List.map_map]
    congr 1
    · rw [chunkRows, Nat.sub_zero, ← List.range_eq_range']
      refine List.map_congr_left fun t ht => ?_
      rw [row, map_eq_map_range_getD hcv.1]
      refine List.map_congr_left fun j hj => ?_
      rw [column_cons, List.getD_append _ _ _ _ (by
        rw [← dimSize0, hlen j (List.mem_range.1 hj)]; exact List.mem_range.1 ht)]
    · refine List.map_congr_left fun t _ => List.map_congr_left fun j hj => ?_
      simp only [Function.comp, column_cons]
      rw [List.getD_append_right _ _ _ _ (by rw [← dimSize0, hlen j (List.mem_range.1 hj)]; omega),
        ← dimSize0, hlen j (List.mem_range.1 hj), Nat.add_sub_cancel_left]

theorem length_column {k j : Nat} {chunks : List (List (Tensor ε))}
    (hc : ∀ c ∈ chunks, c.length = k ∧ ChunkValid c) (hj : j < k) :
    (column j chunks).length = (chunks.map chunkLength).sum := by
  induction chunks with
  | nil => rfl
  | cons c cs ih =>
    rw [column_cons, List.length_append, ← dimSize0,
      getD_dimSize0 (hc c (List.mem_cons_self _ _)) hj,
      ih fun c' h => hc c' (List.mem_cons_of_mem _ h), List.map_cons, List.sum_cons]

/-- 新しい sample は行を取り出せ、その行は列 `column j` の行である。 -/
theorem new_timesteps {key : UInt64} {probability : Float} {tableSize : Int} {k : Nat}
    {chunks : List (List (Tensor ε))} (hne : chunks ≠ [])
    (hc : ∀ c ∈ chunks, c.length = k ∧ ChunkValid c)
    {s : Sample ε} (hs : new key probability tableSize chunks = some s) :
    s.Valid ∧ s.numTimesteps = (chunks.map chunkLength).sum ∧ s.numDataTensors = k ∧
      s.nextTimestepCalled = false ∧ s.chunks = chunks ∧
      s.timesteps = (List.range s.numTimesteps).map
        fun t => (List.range k).map fun j => (column j chunks).getD t default := by
  rw [new_eq hne fun c h => (hc c h).2.1, Option.some.injEq] at hs
  subst hs
  obtain ⟨c, cs, rfl⟩ := List.exists_cons_of_ne_nil hne
  refine ⟨⟨fun c' h => (hc c' h).2, fun c' cs' h => ?_⟩, rfl, (hc c (List.mem_cons_self _ _)).1,
    rfl, rfl,
    (timesteps_of_index_zero rfl).trans (flatMap_chunkRows hc)⟩
  exact (hc c' (by simp_all)).2.2.1

/-! ## まとめて取り出す -/

theorem pushBatches_eq {ds : List (List (Tensor ε))} {c : List (Tensor ε)}
    (h : c.length = ds.length) :
    pushBatches ds c = some (List.zipWith (fun d b => d ++ [b]) ds c) := by
  induction ds generalizing c with
  | nil => cases c with
    | nil => rfl
    | cons => simp at h
  | cons d ds ih => cases c with
    | nil => simp at h
    | cons b bs => simp [pushBatches, ih (by simpa using h)]

theorem zipWith_map_range {α β γ : Type} [Inhabited β] {k : Nat} {c : List β} (h : c.length = k)
    (G : Nat → α) (f : α → β → γ) :
    List.zipWith f ((List.range k).map G) c
      = (List.range k).map fun j => f (G j) (c.getD j default) := by
  subst h
  apply List.ext_getElem (by simp)
  intro i h₁ h₂
  simp only [List.getElem_zipWith, List.getElem_map, List.getElem_range,
    List.getD_eq_getElem _ _ (by simpa using h₂)]

/-- `data_tensors[i]` は、各 chunk の `i` 番目の tensor を chunk の順に並べたもの。 -/
theorem foldlM_pushBatches {k : Nat} (pre : List (List (Tensor ε)))
    {chunks : List (List (Tensor ε))}
    (h : ∀ c ∈ chunks, c.length = k) :
    chunks.foldlM pushBatches ((List.range k).map fun j => pre.map (·.getD j default))
      = some ((List.range k).map fun j => (pre ++ chunks).map (·.getD j default)) := by
  induction chunks generalizing pre with
  | nil => simp
  | cons c cs ih =>
    have hc := h c (List.mem_cons_self _ _)
    rw [List.foldlM_cons, pushBatches_eq (by simpa using hc), zipWith_map_range hc]
    have := ih (pre ++ [c]) fun c' h' => h c' (List.mem_cons_of_mem _ h')
    simp only [List.map_append, List.map_singleton, List.append_assoc,
      List.singleton_append] at this ⊢
    exact this

theorem mapM_concat_columns {k : Nat} {chunks : List (List (Tensor ε))} (hne : chunks ≠ [])
    (hc : ∀ c ∈ chunks, c.length = k ∧ ChunkValid c) :
    ((List.range k).map fun j => chunks.map (·.getD j default)).mapM concat
      = some ((List.range k).map fun j => stack (column j chunks)) := by
  rw [mapM_eq_some_map (g := fun d => stack (d.map rows).flatten), List.map_map]
  · simp only [Function.comp_def, List.map_map]
    rfl
  intro d hd
  obtain ⟨j, hj, rfl⟩ := List.mem_map.1 hd
  refine concat_of_dimSize0_pos (by simpa using hne) fun t ht => ?_
  obtain ⟨c, hc', rfl⟩ := List.mem_map.1 ht
  rw [getD_dimSize0 (hc c hc') (List.mem_range.1 hj)]
  exact (hc c hc').2.2.1

/-- `AsBatchedTimesteps` は、key などを `num_timesteps_` 行に広げた三つと、列 `column j` を返す。 -/
theorem asBatchedTimesteps_new {key : UInt64} {probability : Float} {tableSize : Int} {k : Nat}
    {chunks : List (List (Tensor ε))} (hne : chunks ≠ [])
    (hc : ∀ c ∈ chunks, c.length = k ∧ ChunkValid c)
    {s : Sample ε} (hs : new key probability tableSize chunks = some s) :
    s.asBatchedTimesteps = some ([initializeTensor (.uint64 s.key) s.numTimesteps,
      initializeTensor (.double s.probability) s.numTimesteps,
      initializeTensor (.int64 s.tableSize) s.numTimesteps]
      ++ (List.range k).map fun j => stack (column j chunks)) := by
  rw [new_eq hne fun c h => (hc c h).2.1, Option.some.injEq] at hs
  subst hs
  have hk : (chunks.headD []).length = k := by
    obtain ⟨c, cs, rfl⟩ := List.exists_cons_of_ne_nil hne
    exact (hc c (List.mem_cons_self _ _)).1
  have hrep : List.replicate k []
      = (List.range k).map fun j => ([] : List (List (Tensor ε))).map (·.getD j default) := by
    simp
  simp only [asBatchedTimesteps, hk, hrep, Bool.false_eq_true, ↓reduceIte,
    foldlM_pushBatches [] fun c h => (hc c h).1, List.nil_append, Option.bind_eq_bind,
    Option.some_bind, mapM_concat_columns hne hc]

/-- **二つの取り出し方は一致する**：新しい sample に `GetNextTimestep` を `num_timesteps_` 回呼ぶと、
その前には終わらず、呼び終えると終わる。`t` 回目の結果は key などの三つと列 `column j` の `t` 行目で、
同じ sample の `AsBatchedTimesteps` が返す `k + 3` 個の tensor の `t` 行目である。 -/
theorem getNextTimestep_eq_asBatchedTimesteps {key : UInt64} {probability : Float} {tableSize : Int}
    {k : Nat} {chunks : List (List (Tensor ε))} (hne : chunks ≠ [])
    (hc : ∀ c ∈ chunks, c.length = k ∧ ChunkValid c) {s : Sample ε}
    (hs : new key probability tableSize chunks = some s) :
    s.numTimesteps = (chunks.map chunkLength).sum ∧
    (∀ m < s.numTimesteps, ∃ xs s', s.takeTimesteps m = some (xs, s') ∧ s'.isEndOfSample = false) ∧
    ∃ xs s' batched, s.takeTimesteps s.numTimesteps = some (xs, s') ∧ s'.isEndOfSample = true ∧
      s'.getNextTimestep = none ∧
      xs = (List.range s.numTimesteps).map
        (fun t => s.meta ++ (List.range k).map fun j => (column j chunks).getD t default) ∧
      s.asBatchedTimesteps = some batched ∧ batched.length = k + 3 ∧
      (∀ b ∈ batched, b.dimSize0 = s.numTimesteps) ∧
      xs = (List.range s.numTimesteps).map fun t => batched.map fun b => b.rows.getD t default := by
  obtain ⟨hv, hnum, -, -, -, htime⟩ := new_timesteps hne hc hs
  have hlen : s.timesteps.length = s.numTimesteps := by simp [htime]
  obtain ⟨s', htake, hend, hnone⟩ := takeTimesteps_all hv
  rw [hlen, htime, List.map_map] at htake
  refine ⟨hnum, fun m hm => takeTimesteps_lt hv (hlen ▸ hm), _, s', _, htake, hend, hnone, rfl,
    asBatchedTimesteps_new hne hc hs, by simp, ?_, ?_⟩
  · simp only [List.cons_append, List.mem_cons, List.nil_append, List.mem_map, List.mem_range]
    rintro b (rfl | rfl | rfl | ⟨j, hj, rfl⟩)
    iterate 3 simp [dimSize0]
    rw [dimSize0_stack, length_column hc hj, hnum]
  · refine List.map_congr_left fun t ht => ?_
    simp [meta, List.mem_range.1 ht]

theorem getNextTimestep_eq_asBatchedTimesteps_two_chunks :
    let chunks : List (List (Tensor Unit)) :=
      [[stack [scalar (.elem ()), scalar (.elem ())]], [stack [scalar (.elem ())]]]
    let s : Sample Unit := ⟨0, 0, 0, 3, 1, chunks, 0, false⟩
    (chunks ≠ [] ∧ (∀ c ∈ chunks, c.length = 1 ∧ ChunkValid c) ∧ new 0 0 0 chunks = some s) ∧
      ∃ xs s', s.takeTimesteps 3 = some (xs, s') ∧ s'.isEndOfSample = true := by
  intro chunks s
  have hc : ∀ c ∈ chunks, c.length = 1 ∧ ChunkValid c := by simp [chunks, ChunkValid, chunkLength]
  obtain ⟨-, -, xs, s', -, htake, hend, -⟩ :=
    getNextTimestep_eq_asBatchedTimesteps (by simp [chunks]) hc (s := s) rfl
  exact ⟨⟨by simp [chunks], hc, rfl⟩, xs, s', htake, hend⟩

end Sample

end Reverb
