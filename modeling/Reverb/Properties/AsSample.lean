import Reverb.Worker

/-!
# 読み込みと `AsSample`

data tensor の形が揃った response の stream から一つの sample を読み、`AsSample` で組み立てる。

## 証明の段取り

1. `releaseLoop_slices` — 内側の `while` は後ろから取り出して後ろから埋めるので、
   結果は元の順に並べた切り出しになる。
2. `asSampleLoop_chunks` — 外側の `for` について、response の並びに関する帰納法。
   最後の response の前では `remaining` がその response の残りの行数より多く、
   最後の response で 0 になる。
3. `readResponses_prefix` — 読み込みは、行数の和が `length + offset` に届く最初の長さで止まる。
   これが 2 の「最後の response の前では足りない」を与える。
4. `asSampleLoop_remaining` と `asSample_accepts` — 逆向き：`AsSample` の `remaining` の
   二つの `CHECK` が受け入れるのは、`SampleIsDone` が並び全体で初めて真になる並びだけである。
-/

namespace Reverb

open Tensor Sample

variable {P ε : Type} (codec : Codec P ε)

/-- response の data tensor を tensor に戻したもの。 -/
def decoded (r : SampleStreamResponse P) : List (Tensor ε) :=
  r.data.data.map (decodeChunk codec r.data.deltaEncoded)

/-- response の行数。 -/
def rowCount (r : SampleStreamResponse P) : Nat := chunkLength (decoded codec r)

/-- `a` 行目から `b` 行を切り出した tensor。 -/
def sliceRows (a b : Nat) (t : Tensor ε) : Tensor ε := stack ((t.rows.drop a).take b)

/-- response が `k` 個の data tensor を持ち、どれも `n` 行であること（proto の形でも、戻した tensor でも）。 -/
structure Shaped (k n : Nat) (r : SampleStreamResponse P) : Prop where
  count : r.data.data.length = k
  dim0 : ∀ p ∈ r.data.data, codec.dim0 p = n
  rows : ∀ p ∈ r.data.data, (decodeChunk codec r.data.deltaEncoded p).dimSize0 = n

theorem replicate_append_set {α : Type} (m : Nat) (a b : α) (tail : List α) :
    (List.replicate (m + 1) a ++ tail).set m b = List.replicate m a ++ b :: tail := by
  rw [List.replicate_succ', List.append_assoc, List.set_append_right _ _ (by simp)]
  simp

/-- 内側の `while` は、後ろから取り出して後ろから埋めるので、元の順に並べた切り出しを返す。 -/
theorem releaseLoop_slices {de : Bool} {offset remaining : Int} {n : Nat}
    (hn : 0 < n) (h0 : 0 ≤ offset) (h1 : offset ≤ min (offset + remaining) n) :
    ∀ (L : List P) (tail : List (Tensor ε)) (batchSize : Int),
      (∀ p ∈ L, (decodeChunk codec de p).dimSize0 = n) → (batchSize = -1 ∨ batchSize = n) →
      (L = [] → batchSize = n) →
      releaseLoop codec de offset remaining L (List.replicate L.length default ++ tail) batchSize
          (L.length - 1)
        = some (L.reverse.map (fun p => sliceRows offset.toNat
            (min (offset + remaining) n - offset).toNat (decodeChunk codec de p)) ++ tail,
          (n : Int))
  | [], tail, batchSize, _, _, hL => by simp [releaseLoop, hL rfl]
  | p :: L, tail, batchSize, hp, hbs, _ => by
    have hd := hp p (List.mem_cons_self _ _)
    have hbs' : checkBatchSize batchSize (decodeChunk codec de p).dimSize0 = some (n : Int) := by
      rcases hbs with h | h <;> simp [checkBatchSize, h, hd]
    rw [releaseLoop, hbs']
    simp only [Option.bind_eq_bind, Option.some_bind]
    rw [slice_of_dimSize0_pos (by omega) h0 (by omega) (by omega), Option.some_bind,
      List.length_cons, Nat.add_sub_cancel, replicate_append_set]
    rw [releaseLoop_slices hn h0 h1 L _ n (fun q hq => hp q (List.mem_cons_of_mem _ hq))
      (.inr rfl) (fun _ => rfl)]
    simp [sliceRows, hd]

namespace Shaped

variable {codec} {k n : Nat} {r : SampleStreamResponse P}

theorem length_decoded (h : Shaped codec k n r) : (decoded codec r).length = k := by
  simp [decoded, h.count]

theorem rows_length (h : Shaped codec k n r) : ∀ u ∈ decoded codec r, u.rows.length = n := by
  simp only [decoded, List.mem_map]
  rintro _ ⟨p, hp, rfl⟩
  exact h.rows p hp

theorem rowCount_eq (h : Shaped codec k n r) (hk : 0 < k) : rowCount codec r = n := by
  obtain ⟨u, us, hu⟩ := List.exists_cons_of_length_pos (h.length_decoded ▸ hk)
  simp only [rowCount, chunkLength, hu, List.headD_cons]
  exact h.rows_length u (by simp [hu])

/-- `a` 行目から `b` 行を切り出した chunk は、行を取り出せる。 -/
theorem chunkValid_slices (h : Shaped codec k n r) (hk : 0 < k) {a b : Nat} (hb : 0 < b)
    (hab : a + b ≤ n) :
    ChunkValid ((decoded codec r).map (sliceRows a b)) ∧
      chunkLength ((decoded codec r).map (sliceRows a b)) = b := by
  have hlen : ∀ u ∈ decoded codec r, (sliceRows a b u).dimSize0 = b := fun u hu => by
    simp [sliceRows, h.rows_length u hu]; omega
  obtain ⟨u, us, hu⟩ := List.exists_cons_of_length_pos (h.length_decoded ▸ hk)
  have hb' : chunkLength ((decoded codec r).map (sliceRows a b)) = b := by
    simp only [chunkLength, hu, List.map_cons, List.headD_cons]
    exact hlen u (by simp [hu])
  refine ⟨⟨by simp [hu], by omega, ?_⟩, hb'⟩
  simp only [List.mem_map, hb']
  rintro _ ⟨v, hv, rfl⟩
  exact hlen v hv

end Shaped

theorem slices_contiguous (a b : Nat) (us : List (Tensor ε)) :
    List.Forall₂ (fun t u => t.rows <:+: u.rows) (us.map (sliceRows a b)) us := by
  rw [List.forall₂_map_left_iff, List.forall₂_same]
  intro u _
  exact ((List.take_prefix _ _).isInfix).trans (List.drop_suffix _ _).isInfix

theorem getD_slices {a b j : Nat} {us : List (Tensor ε)} (hj : j < us.length) :
    ((us.map (sliceRows a b)).getD j default).rows = ((us.getD j default).rows.drop a).take b := by
  rw [List.getD_eq_getElem _ _ (by simpa using hj), List.getD_eq_getElem _ _ hj]
  simp [sliceRows]

theorem releaseLoop_response {k n : Nat} {r : SampleStreamResponse P} (offset remaining : Int)
    (hk : 0 < k) (hn : 0 < n) (hr : Shaped codec k n r) (h0 : 0 ≤ offset)
    (h1 : offset ≤ min (offset + remaining) n) :
    releaseLoop codec r.data.deltaEncoded offset remaining r.data.data.reverse
        (List.replicate r.data.data.length default) (-1) (r.data.data.length - 1)
      = some ((decoded codec r).map
          (sliceRows offset.toNat (min (offset + remaining) n - offset).toNat), (n : Int)) := by
  have := releaseLoop_slices codec hn h0 h1 r.data.data.reverse [] (-1)
    (fun p hp => hr.rows p (List.mem_reverse.mp hp)) (.inl rfl)
    (fun h => by
      have := hr.count
      rw [List.reverse_eq_nil_iff.mp h, List.length_nil] at this
      omega)
  simpa [decoded] using this

/-- chunk と response の対応：各 tensor の行は、同じ位置の data tensor の行の連続した一部である。 -/
def ChunksOf (chunks : List (List (Tensor ε))) (rs : List (SampleStreamResponse P)) : Prop :=
  List.Forall₂ (fun c r => List.Forall₂ (fun t u => t.rows <:+: u.rows) c (decoded codec r))
    chunks rs

theorem Shaped.getD_rows_length {k n : Nat} {r : SampleStreamResponse P}
    (h : Shaped codec k n r) {j : Nat} (hj : j < k) :
    ((decoded codec r).getD j default).rows.length = n := by
  rw [List.getD_eq_getElem _ _ (by rw [h.length_decoded]; exact hj)]
  exact h.rows_length _ (List.getElem_mem _)

/-- 外側の `for` の一周：`offset` 行目から、残りとこの response の行の少ない方だけを切り出す。 -/
theorem asSampleLoop_cons {k : Nat} (hk : 0 < k) {r : SampleStreamResponse P}
    (hn : 0 < rowCount codec r) (hr : Shaped codec k (rowCount codec r) r) {offset remaining : Int}
    (h0 : 0 ≤ offset) (hoff : offset < rowCount codec r) (hrem : 0 < remaining)
    (rest : List (SampleStreamResponse P)) :
    asSampleLoop codec offset remaining (r :: rest) =
      (asSampleLoop codec 0 (remaining - min remaining (rowCount codec r - offset)) rest).map
        fun x => ((decoded codec r).map
          (sliceRows offset.toNat (min remaining (rowCount codec r - offset)).toNat) :: x.1,
          x.2) := by
  have hrel := releaseLoop_response codec offset remaining hk hn hr h0 (by omega)
  rw [show min (offset + remaining) (rowCount codec r : Int) - offset
    = min remaining (rowCount codec r - offset) by omega] at hrel
  rw [asSampleLoop, if_pos hrem]
  simp only [hrel, Option.bind_eq_bind, Option.some_bind]
  cases asSampleLoop codec 0 (remaining - min remaining (rowCount codec r - offset)) rest <;> rfl

/-- 前の列の `a` 行目から終わりまでと後ろの列の先頭をつなぐと、つないだ列の `a` 行目からの切り出しになる。 -/
theorem drop_take_append {α : Type} {xs : List α} (ys : List α) {a b : Nat} (c : Nat)
    (h : a + b = xs.length) : (xs.drop a).take b ++ ys.take c = ((xs ++ ys).drop a).take (b + c) := by
  have hd : (xs.drop a).length = b := by rw [List.length_drop]; omega
  rw [List.drop_append_of_le_length (by omega), List.take_append_eq_append_take, hd,
    List.take_of_length_le (l := xs.drop a) (i := b) (by omega),
    List.take_of_length_le (l := xs.drop a) (i := b + c) (by omega), Nat.add_sub_cancel_left]

theorem asSampleLoop_chunks {k : Nat} (hk : 0 < k) :
    ∀ (rs : List (SampleStreamResponse P)) (offset remaining : Int),
      (∀ r ∈ rs, 0 < rowCount codec r ∧ Shaped codec k (rowCount codec r) r) →
      0 ≤ offset → (∀ r ∈ rs.head?, offset < rowCount codec r) → 0 < remaining →
      offset + remaining ≤ ((rs.map (rowCount codec)).sum : Int) →
      ((rs.dropLast.map (rowCount codec)).sum : Int) < offset + remaining →
      ∃ chunks, asSampleLoop codec offset remaining rs = some (chunks, 0) ∧
        ChunksOf codec chunks rs ∧ (∀ c ∈ chunks, ChunkValid c) ∧
        ((chunks.map chunkLength).sum : Int) = remaining ∧
        ∀ j < k, column j chunks
          = ((column j (rs.map (decoded codec))).drop offset.toNat).take remaining.toNat
  | [], offset, remaining, _, h0, _, hrem, hsum, _ => by simp at hsum; omega
  | r :: rest, offset, remaining, hrs, h0, hoff, hrem, hsum, hlast => by
    obtain ⟨hn, hr⟩ := hrs r (List.mem_cons_self _ _)
    have hoff := hoff r rfl
    rw [asSampleLoop_cons codec hk hn hr h0 hoff hrem]
    cases rest with
    | nil =>
      simp only [List.map_cons, List.map_nil, List.sum_cons, List.sum_nil, add_zero] at hsum
      have hb : min remaining (rowCount codec r - offset) = remaining := by omega
      obtain ⟨hv, hl⟩ := hr.chunkValid_slices hk (a := offset.toNat) (b := remaining.toNat)
        (by omega) (by omega)
      refine ⟨[(decoded codec r).map (sliceRows offset.toNat remaining.toNat)], ?_,
        .cons (slices_contiguous _ _ _) .nil, by simpa using hv, by simp [hl]; omega,
        fun j hj => ?_⟩
      · rw [hb, sub_self, asSampleLoop]
        rfl
      · simp only [column, List.map_cons, List.map_nil, List.flatten_cons, List.flatten_nil,
          List.append_nil]
        rw [getD_slices (by rw [hr.length_decoded]; exact hj)]
    | cons r' rest =>
      simp only [List.dropLast_cons₂, List.map_cons, List.sum_cons, Nat.cast_add] at hlast hsum
      have hS : (0 : Int) ≤ (((r' :: rest).dropLast.map (rowCount codec)).sum : Nat) :=
        Int.natCast_nonneg _
      have hb : (min remaining (rowCount codec r - offset)).toNat
          = rowCount codec r - offset.toNat := by omega
      obtain ⟨hv, hl⟩ := hr.chunkValid_slices hk (a := offset.toNat)
        (b := rowCount codec r - offset.toNat) (by omega) (by omega)
      have hn' := (hrs r' (by simp)).1
      obtain ⟨chunks, hloop, hof, hval, hsum', hcol⟩ := asSampleLoop_chunks hk (r' :: rest) 0
        (remaining - min remaining (rowCount codec r - offset))
        (fun x hx => hrs x (List.mem_cons_of_mem _ hx)) le_rfl
        (by simp only [List.head?_cons, Option.mem_def, Option.some.injEq]; rintro x rfl; omega)
        (by omega) (by simp only [List.map_cons, List.sum_cons, Nat.cast_add]; omega) (by omega)
      refine ⟨(decoded codec r).map (sliceRows offset.toNat (rowCount codec r - offset.toNat))
        :: chunks, by rw [hb, hloop]; rfl, .cons (slices_contiguous _ _ _) hof, ?_, ?_, ?_⟩
      · simp only [List.mem_cons, forall_eq_or_imp]
        exact ⟨hv, hval⟩
      · simp only [List.map_cons, List.sum_cons, Nat.cast_add, hl]
        omega
      · intro j hj
        have hlen := hr.getD_rows_length codec hj
        simp only [List.map_cons, column_cons]
        rw [getD_slices (by rw [hr.length_decoded]; exact hj), hcol j hj, Int.toNat_zero,
          List.drop_zero, show remaining.toNat = (rowCount codec r - offset.toNat)
            + (remaining - min remaining (rowCount codec r - offset)).toNat by omega]
        exact drop_take_append _ _ (by omega)

theorem mapM_dim0 {k : Nat} (hk : 0 < k) :
    ∀ {l : List (SampleStreamResponse P)}, (∀ r ∈ l, Shaped codec k (rowCount codec r) r) →
      l.mapM (fun r => r.data.data.head?.map codec.dim0)
        = some (l.map fun r => (rowCount codec r : Int))
  | [], _ => rfl
  | r :: l, h => by
    have hr := h r (List.mem_cons_self _ _)
    obtain ⟨p, ps, hp⟩ := List.exists_cons_of_length_pos (hr.count ▸ hk)
    rw [List.mapM_cons, mapM_dim0 hk fun x hx => h x (List.mem_cons_of_mem _ hx)]
    simp [hp, hr.dim0 p (by simp [hp])]

/-- data tensor の形が揃った response の並びでは、`SampleIsDone` は行数の和を比べる。 -/
theorem sampleIsDone_shaped {k : Nat} (hk : 0 < k) {r₀ : SampleStreamResponse P}
    {rest : List (SampleStreamResponse P)}
    (h : ∀ r ∈ r₀ :: rest, Shaped codec k (rowCount codec r) r) :
    sampleIsDone codec (r₀ :: rest) = some (decide (r₀.info.item.sequenceRange.length
      + r₀.info.item.sequenceRange.offset ≤ ((r₀ :: rest).map (rowCount codec)).sum)) := by
  rw [sampleIsDone, mapM_dim0 codec hk h]
  simp only [Option.bind_eq_bind, Option.some_bind, Option.some.injEq, decide_eq_decide]
  rw [show (r₀ :: rest).map (fun r => (rowCount codec r : Int))
      = ((r₀ :: rest).map (rowCount codec)).map Nat.cast from (List.map_map ..).symm,
    ← Nat.cast_list_sum]

/-- 読み込みは、行数の和が `length + offset` に届く最初の長さまで読んで止まる。 -/
theorem readResponses_prefix {k : Nat} (hk : 0 < k) (r₀ : SampleStreamResponse P) :
    ∀ (stream acc : List (SampleStreamResponse P)),
      (∀ r ∈ r₀ :: acc ++ stream, Shaped codec k (rowCount codec r) r) →
      (((r₀ :: acc).dropLast.map (rowCount codec)).sum
        < r₀.info.item.sequenceRange.length + r₀.info.item.sequenceRange.offset) →
      r₀.info.item.sequenceRange.length + r₀.info.item.sequenceRange.offset
        ≤ ((r₀ :: acc ++ stream).map (rowCount codec)).sum →
      ∃ m, readResponses codec (r₀ :: acc) stream
          = some (.done ((r₀ :: acc ++ stream).take m) ((r₀ :: acc ++ stream).drop m)) ∧
        r₀.info.item.sequenceRange.length + r₀.info.item.sequenceRange.offset
          ≤ (((r₀ :: acc ++ stream).take m).map (rowCount codec)).sum ∧
        ((((r₀ :: acc ++ stream).take m).dropLast.map (rowCount codec)).sum
          < r₀.info.item.sequenceRange.length + r₀.info.item.sequenceRange.offset)
  | stream, acc, hs, hlast, htotal => by
    have hdone : sampleIsDone codec (r₀ :: acc) = _ := sampleIsDone_shaped codec hk
      (fun r hr => hs r (by simp at hr ⊢; tauto))
    by_cases hd : r₀.info.item.sequenceRange.length + r₀.info.item.sequenceRange.offset
        ≤ ((r₀ :: acc).map (rowCount codec)).sum
    · have ht : (r₀ :: acc ++ stream).take (acc.length + 1) = r₀ :: acc := by simp
      have hd' : (r₀ :: acc ++ stream).drop (acc.length + 1) = stream := by simp
      refine ⟨acc.length + 1, ?_, ?_, ?_⟩ <;> rw [ht]
      · rw [hd']
        unfold readResponses
        rw [hdone]
        simp only [hd, decide_True, Option.some_bind, ↓reduceIte]
      · exact hd
      · exact hlast
    · cases stream with
      | nil => simp at htotal hd; omega
      | cons x rest =>
        obtain ⟨m, hm, h1, h2⟩ := readResponses_prefix hk r₀ rest (acc ++ [x])
          (by simpa using hs) (by rw [← List.cons_append, List.dropLast_concat]; simpa using hd)
          (by simpa using htotal)
        refine ⟨m, ?_, by simpa using h1, by simpa using h2⟩
        unfold readResponses
        rw [hdone]
        simp only [hd, decide_False, Option.some_bind, Bool.false_eq_true, ↓reduceIte]
        simpa using hm

/--
stream の先頭から、一つの sample の response を読み終えるまで読み、`AsSample` する。

読むのは行数の和が `offset + length` に届く最初の長さ `m` までで、`AsSample` はそれを受け入れる
（`remaining` の二つの `CHECK` は落ちない）。できた `Sample` は response と同じ順の `m` 個の chunk を持ち、
どの chunk も `k` 個の tensor を response の data tensor と同じ順に持ち、行数は正である。
`j` 番目の tensor をつなぐと、`j` 番目の data tensor をつないだものの `offset` 行目から
`length` 行になり、`num_timesteps_` は `length` である。
-/
theorem asSample_readResponses {k : Nat} (hk : 0 < k) (r₀ : SampleStreamResponse P)
    (rest : List (SampleStreamResponse P))
    (hshape : ∀ r ∈ r₀ :: rest, ∃ n, 0 < n ∧ Shaped codec k n r)
    (h0 : 0 ≤ r₀.info.item.sequenceRange.offset) (hlen : 1 ≤ r₀.info.item.sequenceRange.length)
    (hoff : r₀.info.item.sequenceRange.offset < rowCount codec r₀)
    (henough : r₀.info.item.sequenceRange.offset + r₀.info.item.sequenceRange.length
      ≤ ((r₀ :: rest).map (rowCount codec)).sum) :
    ∃ m sample, readResponses codec [] (r₀ :: rest)
        = some (.done ((r₀ :: rest).take m) ((r₀ :: rest).drop m)) ∧
      r₀.info.item.sequenceRange.offset + r₀.info.item.sequenceRange.length
        ≤ (((r₀ :: rest).take m).map (rowCount codec)).sum ∧
      (((r₀ :: rest).take m).dropLast.map (rowCount codec)).sum
        < r₀.info.item.sequenceRange.offset + r₀.info.item.sequenceRange.length ∧
      asSample codec ((r₀ :: rest).take m) = some sample ∧
      ChunksOf codec sample.chunks ((r₀ :: rest).take m) ∧ (∀ c ∈ sample.chunks, ChunkValid c) ∧
      (∀ j < k, column j sample.chunks
        = ((column j (((r₀ :: rest).take m).map (decoded codec))).drop
            r₀.info.item.sequenceRange.offset.toNat).take
              r₀.info.item.sequenceRange.length.toNat) ∧
      (sample.numTimesteps : Int) = r₀.info.item.sequenceRange.length := by
  have hs : ∀ r ∈ r₀ :: rest, 0 < rowCount codec r ∧ Shaped codec k (rowCount codec r) r := by
    intro r hr
    obtain ⟨n, hn, h⟩ := hshape r hr
    rw [h.rowCount_eq hk]
    exact ⟨hn, h⟩
  obtain ⟨m, hread, hge, hlt⟩ := readResponses_prefix codec hk r₀ rest []
    (fun r hr => (hs r (by simpa using hr)).2) (by simp; omega)
    (by simpa [add_comm] using henough)
  obtain ⟨m, rfl⟩ : ∃ m', m = m' + 1 := ⟨m - 1, by
    rcases m with _ | m
    · simp at hge; omega
    · rfl⟩
  simp only [List.singleton_append, List.take_succ_cons, List.drop_succ_cons] at hread hge hlt
  have hsub : ∀ r ∈ r₀ :: rest.take m, 0 < rowCount codec r ∧
      Shaped codec k (rowCount codec r) r := fun r hr =>
    hs r (List.cons_subset_cons _ (List.take_subset _ _) hr)
  obtain ⟨chunks, hloop, hof, hval, hsum, hcol⟩ := asSampleLoop_chunks codec hk (r₀ :: rest.take m)
    r₀.info.item.sequenceRange.offset r₀.info.item.sequenceRange.length hsub (by omega)
    (by simpa using hoff) (by omega) (by omega) (by omega)
  have hne : chunks ≠ [] := by rintro rfl; cases hof
  obtain ⟨sample, hnew, hchunks, hnum⟩ : ∃ sample, Sample.new r₀.info.item.key
      r₀.info.probability r₀.info.tableSize chunks = some sample ∧ sample.chunks = chunks ∧
      sample.numTimesteps = (chunks.map chunkLength).sum :=
    ⟨_, Sample.new_eq hne fun c hc => (hval c hc).1, rfl, rfl⟩
  refine ⟨m + 1, sample, ?_⟩
  simp only [List.take_succ_cons, List.drop_succ_cons, hchunks, hnum]
  refine ⟨?_, by omega, by omega, ?_, hof, hval, by simpa using hcol, by exact_mod_cast hsum⟩
  · unfold readResponses
    simpa [sampleIsDone] using hread
  · simp only [asSample]
    rw [hloop]
    simp only [Option.bind_eq_bind, Option.some_bind, ↓reduceIte]
    exact hnew

/-- 二つの data tensor を持つ二行の response が二つ。item は最初の response の 1 行目から二行で、
二つ目の response の 0 行目までを取る。 -/
theorem asSample_readResponses_two :
    let codec : Codec Unit Unit :=
      ⟨fun _ => 2, fun _ => .stack [.scalar (.elem ()), .scalar (.elem ())], fun t _ => t⟩
    let r₀ : SampleStreamResponse Unit := ⟨⟨⟨0, ⟨1, 2⟩⟩, 1, 1⟩, ⟨[(), ()], false⟩⟩
    (∀ r ∈ [r₀, r₀], ∃ n, 0 < n ∧ Shaped codec 2 n r) ∧ 0 < r₀.info.item.sequenceRange.offset ∧
      ∃ m sample, readResponses codec [] [r₀, r₀]
          = some (.done ([r₀, r₀].take m) ([r₀, r₀].drop m)) ∧
        asSample codec ([r₀, r₀].take m) = some sample ∧
        (∀ j < 2, column j sample.chunks
          = ((column j (([r₀, r₀].take m).map (decoded codec))).drop 1).take 2) ∧
        (sample.numTimesteps : Int) = 2 := by
  intro codec r₀
  have hs : ∀ r ∈ [r₀, r₀], ∃ n, 0 < n ∧ Shaped codec 2 n r := by
    intro r hr
    obtain rfl : r = r₀ := by simpa using hr
    exact ⟨2, by decide, ⟨rfl, by simp [codec, r₀], by simp [codec, r₀, decodeChunk]⟩⟩
  obtain ⟨m, sample, hread, -, -, h, -, -, hcol, hn⟩ := asSample_readResponses codec (by decide)
    r₀ [r₀] hs (by decide) (by decide) (by decide) (by decide)
  exact ⟨hs, by decide, m, sample, hread, h, hcol, hn⟩

/-! ## `AsSample` が受け入れる並び -/

/-- 外側の `for` が最後の response まで回るのは、その前で `remaining` が残っているときだけで、
そのとき最後に残る `remaining` は、足りない行数（足りていれば 0）である。 -/
theorem asSampleLoop_remaining {k : Nat} (hk : 0 < k) (rest : List (SampleStreamResponse P)) :
    ∀ (r : SampleStreamResponse P) (offset remaining : Int),
      (∀ x ∈ r :: rest, 0 < rowCount codec x ∧ Shaped codec k (rowCount codec x) x) →
      0 ≤ offset → offset < rowCount codec r → 0 < remaining →
      (asSampleLoop codec offset remaining (r :: rest)).map (·.2)
        = if ((((r :: rest).dropLast.map (rowCount codec)).sum : Nat) : Int) < offset + remaining
          then some (max 0 (offset + remaining - ((r :: rest).map (rowCount codec)).sum))
          else none := by
  induction rest with
  | nil =>
    intro r offset remaining hs h0 hoff hrem
    have hr := hs r (List.mem_cons_self _ _)
    rw [asSampleLoop_cons codec hk hr.1 hr.2 h0 hoff hrem]
    simp only [asSampleLoop, Option.map_some', List.dropLast_single, List.map_nil, List.sum_nil,
      List.map_cons, List.sum_cons, add_zero, Nat.cast_zero]
    rw [if_pos (by omega)]
    congr 1
    omega
  | cons r' rest ih =>
    intro r offset remaining hs h0 hoff hrem
    have hr := hs r (List.mem_cons_self _ _)
    have hr' := (hs r' (by simp)).1
    rw [asSampleLoop_cons codec hk hr.1 hr.2 h0 hoff hrem, Option.map_map]
    simp only [Function.comp_def, List.dropLast_cons₂, List.map_cons, List.sum_cons, Nat.cast_add]
    by_cases hpos : 0 < remaining - min remaining (rowCount codec r - offset)
    · rw [ih r' 0 _ (fun x hx => hs x (List.mem_cons_of_mem _ hx)) le_rfl (by exact_mod_cast hr')
        hpos]
      simp only [List.map_cons, List.sum_cons, Nat.cast_add]
      split_ifs <;> first | (exfalso; omega) | (congr 1; omega) | rfl
    · rw [asSampleLoop, if_neg hpos, Option.map_none', if_neg (by omega)]

/-- 行数が正で形の揃った response は、自分の行数で形が揃っている。 -/
theorem shaped_rowCount {k : Nat} (hk : 0 < k) {r : SampleStreamResponse P}
    (h : ∃ n, 0 < n ∧ Shaped codec k n r) :
    0 < rowCount codec r ∧ Shaped codec k (rowCount codec r) r := by
  obtain ⟨n, hn, h⟩ := h
  rw [h.rowCount_eq hk]
  exact ⟨hn, h⟩

/-- `SampleIsDone` が並びで初めて真になるのは、行数の和が最後の response で初めて
`offset + length` に届くときである。 -/
theorem sampleIsDone_first_iff {k : Nat} (hk : 0 < k) {r₀ : SampleStreamResponse P}
    {rest : List (SampleStreamResponse P)}
    (hs : ∀ r ∈ r₀ :: rest, Shaped codec k (rowCount codec r) r)
    (h0 : 0 ≤ r₀.info.item.sequenceRange.offset) (hlen : 1 ≤ r₀.info.item.sequenceRange.length) :
    sampleIsDone codec (r₀ :: rest) = some true ∧
      sampleIsDone codec (r₀ :: rest).dropLast = some false ↔
      ((((r₀ :: rest).dropLast.map (rowCount codec)).sum : Nat) : Int)
          < r₀.info.item.sequenceRange.offset + r₀.info.item.sequenceRange.length ∧
        (r₀.info.item.sequenceRange.offset + r₀.info.item.sequenceRange.length : Int)
          ≤ ((r₀ :: rest).map (rowCount codec)).sum := by
  rw [sampleIsDone_shaped codec hk hs]
  cases rest with
  | nil => simp [sampleIsDone]; omega
  | cons r' rest =>
    rw [List.dropLast_cons₂, sampleIsDone_shaped codec hk fun r hr =>
      hs r (List.cons_subset_cons _ (List.dropLast_subset _) hr)]
    simp only [Option.some.injEq, decide_eq_true_eq, decide_eq_false_iff_not, not_le]
    omega

/-- **`AsSample` が受け入れる並び**：data tensor の形が揃い、最初の response が `offset` 行目を含み、
`length ≥ 1` の response の並びを、`AsSample` の `remaining` の二つの `CHECK` が受け入れるのは、
`SampleIsDone` がその並びで真になり、最後の response を除いた並びでは偽のときだけである。
`OpenStreamAndFetch` が `SampleIsDone` で読み終えた並びはこれを満たし、それより短い並びも長い並びも
受け入れられない。 -/
theorem asSample_accepts {k : Nat} (hk : 0 < k) (r₀ : SampleStreamResponse P)
    (rest : List (SampleStreamResponse P))
    (hshape : ∀ r ∈ r₀ :: rest, ∃ n, 0 < n ∧ Shaped codec k n r)
    (h0 : 0 ≤ r₀.info.item.sequenceRange.offset) (hlen : 1 ≤ r₀.info.item.sequenceRange.length)
    (hoff : r₀.info.item.sequenceRange.offset < rowCount codec r₀) :
    (asSample codec (r₀ :: rest) : Option (Sample ε)).isSome ↔
      sampleIsDone codec (r₀ :: rest) = some true ∧
        sampleIsDone codec (r₀ :: rest).dropLast = some false := by
  have hs := fun r hr => shaped_rowCount codec hk (hshape r hr)
  -- `SampleIsDone` の側：並び全体で届き、最後の response を除くと届かない
  rw [sampleIsDone_first_iff codec hk (fun r hr => (hs r hr).2) h0 hlen]
  constructor
  · intro h
    obtain ⟨sample, hsample⟩ := Option.isSome_iff_exists.1 h
    simp only [asSample, Option.bind_eq_bind] at hsample
    obtain ⟨⟨chunks, rem⟩, hloop, hnew⟩ := Option.bind_eq_some.1 hsample
    have hrem : rem = 0 := by
      by_contra hne
      simp [hne] at hnew
    have hmap := asSampleLoop_remaining codec hk rest r₀ r₀.info.item.sequenceRange.offset
      r₀.info.item.sequenceRange.length hs (by omega) (by exact_mod_cast hoff) (by omega)
    rw [hloop, Option.map_some'] at hmap
    split_ifs at hmap with hc
    simp only [Option.some.injEq] at hmap
    exact ⟨hc, by omega⟩
  · rintro ⟨hlt, hge⟩
    obtain ⟨chunks, hloop, hof, hval, -, -⟩ := asSampleLoop_chunks codec hk (r₀ :: rest) _ _ hs
      (by omega) (by simpa using hoff) (by omega) hge hlt
    have hne : chunks ≠ [] := by
      rintro rfl
      cases hof
    simp only [asSample, hloop, Option.bind_eq_bind, Option.some_bind, ↓reduceIte,
      Sample.new_eq hne fun c hc => (hval c hc).1, Option.isSome_some]

/-- 一行の response で足りる item に、もう一つ response を続けた並びは受け入れられない。 -/
theorem asSample_accepts_extra_response :
    let codec : Codec Unit Unit := ⟨fun _ => 1, fun _ => .stack [.scalar (.elem ())], fun t _ => t⟩
    let r₀ : SampleStreamResponse Unit := ⟨⟨⟨0, ⟨0, 1⟩⟩, 1, 1⟩, ⟨[()], false⟩⟩
    (∀ r ∈ [r₀, r₀], ∃ n, 0 < n ∧ Shaped codec 1 n r) ∧ 0 ≤ r₀.info.item.sequenceRange.offset ∧
      1 ≤ r₀.info.item.sequenceRange.length ∧ r₀.info.item.sequenceRange.offset < rowCount codec r₀ ∧
      (asSample codec [r₀, r₀] : Option (Sample Unit)).isSome = false := by
  intro codec r₀
  have hs : ∀ r ∈ [r₀, r₀], ∃ n, 0 < n ∧ Shaped codec 1 n r := by
    intro r hr
    obtain rfl : r = r₀ := by simpa using hr
    exact ⟨1, by decide, ⟨rfl, by simp [codec], by simp [codec, r₀, decodeChunk]⟩⟩
  have h := asSample_accepts codec (by decide) r₀ [r₀] hs (by decide) (by decide) (by decide)
  refine ⟨hs, by decide, by decide, by decide, Bool.eq_false_iff.2 fun hsome => ?_⟩
  exact absurd (h.1 hsome).2 (by decide)

end Reverb
