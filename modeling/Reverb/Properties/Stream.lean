import Reverb.Properties.AsSample
import Reverb.Properties.Progress

/-!
# stream から queue へ

一本の stream の上で、worker が queue に入れる sample は、stream から読んだ response の並びを
先頭から区切り、区切ったまとまりを順に `AsSample` したものである。

1. `readResponses_done` — 一つの sample の読み込みは stream の先頭を取り、取ったまとまりは
   `SampleIsDone` が最後の response で初めて真になる（`ReadDone`）。
2. `Grouped` — `st` から `st'` までに読んだ response は、queue に入れた sample ごとのまとまりに
   分かれる。`fetchOne` の一周と request の `Write` から、`for`・`while` の順に積む。
3. `openStreamAndFetch_groups` — stream 全体について 2 を言う。
   `openStreamAndFetch_rounds` — request ごとの数の勘定。OK で返って数が `num_samples` に足りない
   のは、`Finish` が OK を返し、その前に `Write` か `Read` が失敗したときだけである。
4.`readDone_det` と `openStreamAndFetch_items` — 形の揃った stream では区切り方は一つしかないので、
   stream が `Item` を順に届けるなら、入れる sample は先頭の item から順に `AsSample` したもので、
   どれも行を取り出せる。
5. `openStreamAndFetch_ok` — 逆向きに、stream が item を十分に届け、`Write` と `Push` が受け入れ
   られるなら、ループは回り切り、`num_samples` と OK を返す。`fetchOne`・`for`・`while` について、
   走り終えることを一つずつ示す。
6. `World.Fresh` と `queued_samples_fresh` — 3 から、queue の sample と stream がこれから入れる
   sample は、どれも `GetNextTimestep` を一度も呼ばれておらず、先頭の行から始まる。
-/

namespace Reverb

variable {P ε : Type} (codec : Codec P ε)

/-- 一つの sample の response を読み終えたまとまり：`SampleIsDone` は並び全体で真で、それより短い
どの先頭でも偽である（`while (!SampleIsDone(responses))` は一つ読むごとにこれを確かめる）。 -/
def ReadDone (g : List (SampleStreamResponse P)) : Prop :=
  sampleIsDone codec g = some true ∧ ∀ n < g.length, sampleIsDone codec (g.take n) = some false

/-- まだ読み終えていない並びに一つ読み足しても、それより短い先頭はどれも読み終えていない。 -/
theorem take_not_done_concat {acc : List (SampleStreamResponse P)} (x : SampleStreamResponse P)
    (hacc : ∀ n < acc.length, sampleIsDone codec (acc.take n) = some false)
    (hd : sampleIsDone codec acc = some false) :
    ∀ n < (acc ++ [x]).length, sampleIsDone codec ((acc ++ [x]).take n) = some false := by
  intro n hn
  rw [List.length_append, List.length_singleton] at hn
  rcases Nat.lt_or_eq_of_le (Nat.le_of_lt_succ hn) with hn | rfl
  · rw [List.take_append_of_le_length hn.le]
    exact hacc n hn
  · rwa [List.take_left]

/-- 一つの sample の読み込みは stream の先頭を取り、取ったまとまりは `ReadDone` である。
`acc` は途中まで集めた response で、それより短い先頭では読み終えていない。 -/
theorem readResponses_done :
    ∀ {stream acc responses rest : List (SampleStreamResponse P)},
      (∀ n < acc.length, sampleIsDone codec (acc.take n) = some false) →
      readResponses codec acc stream = some (.done responses rest) →
      acc ++ stream = responses ++ rest ∧ ReadDone codec responses
  | stream, acc, responses, rest, hacc, h => by
    unfold readResponses at h
    cases hd : sampleIsDone codec acc with
    | none => simp [hd] at h
    | some done =>
      cases done with
      | true =>
        simp only [hd, Option.some_bind, if_true, Option.some.injEq, ReadOutcome.done.injEq] at h
        obtain ⟨rfl, rfl⟩ := h
        exact ⟨rfl, hd, hacc⟩
      | false =>
        cases stream with
        | nil => simp [hd] at h
        | cons x xs =>
          simp only [hd, Option.some_bind, Bool.false_eq_true, if_false] at h
          obtain ⟨happ, hdone⟩ := readResponses_done (take_not_done_concat codec x hacc hd) h
          exact ⟨by simpa using happ, hdone⟩

/-- `st` から `st'` までに読んだ response は、queue に入れた sample `samples` ごとのまとまり `groups` に
分かれる。どのまとまりも読み終えたもので、sample はそれを `AsSample` したもの。 -/
structure Grouped (st st' : Fetch P ε) (groups : List (List (SampleStreamResponse P)))
    (samples : List (Sample ε)) : Prop where
  reads : st.env.reads = groups.flatten ++ st'.env.reads
  pushed : pushedSamples st'.trace = pushedSamples st.trace ++ samples
  built : groups.mapM (asSample codec) = some samples
  done : ∀ g ∈ groups, ReadDone codec g

namespace Grouped

variable {codec}

theorem refl (st : Fetch P ε) : Grouped codec st st [] [] :=
  ⟨by simp, by simp, rfl, by simp⟩

theorem trans {st st₁ st₂ : Fetch P ε} {g₁ g₂ : List (List (SampleStreamResponse P))}
    {s₁ s₂ : List (Sample ε)} (h₁ : Grouped codec st st₁ g₁ s₁) (h₂ : Grouped codec st₁ st₂ g₂ s₂) :
    Grouped codec st st₂ (g₁ ++ g₂) (s₁ ++ s₂) where
  reads := by rw [h₁.reads, h₂.reads]; simp
  pushed := by rw [h₂.pushed, h₁.pushed, List.append_assoc]
  built := by rw [List.mapM_append, h₁.built, h₂.built]; rfl
  done := List.forall_mem_append.2 ⟨h₁.done, h₂.done⟩

/-- request の `Write` は何も読まず、何も入れない。 -/
theorem write (st : Fetch P ε) (writes : List Bool) (request : SampleStreamRequest) :
    Grouped codec st
      { st with env := { st.env with writes }, trace := st.trace ++ [.write request] } [] [] :=
  ⟨by simp, by simp [pushedSamples], rfl, by simp⟩

end Grouped

/-- `fetchOne` が先へ進むなら、stream の先頭の読み終えたまとまりを `AsSample` して queue に入れている。 -/
theorem fetchOne_grouped {st st' : Fetch P ε} (h : fetchOne codec st = some (st', none)) :
    ∃ g s, Grouped codec st st' [g] [s] := by
  unfold fetchOne at h
  split at h
  · cases h
  · cases h
  · rename_i responses rest hread
    split at h
    · cases h
    · rename_i sample pushes hs _
      cases h
      obtain ⟨happ, hdone⟩ := readResponses_done codec (fun n hn => absurd hn (by simp)) hread
      exact ⟨responses, sample,
        ⟨by simpa using happ, by simp [pushedSamples], by rw [List.mapM_cons, hs]; rfl,
          by simpa using hdone⟩⟩
    · cases h

theorem fetchLoop_grouped {n : Nat} {st st' : Fetch P ε} {r : Option Status}
    (h : fetchLoop codec n st = some (st', r)) :
    ∃ groups samples, Grouped codec st st' groups samples := by
  induction n generalizing st with
  | zero => cases h; exact ⟨[], [], .refl _⟩
  | succ n ih =>
    unfold fetchLoop at h
    split at h
    · cases h
    · rename_i h1
      cases h
      obtain ⟨rfl, -⟩ := fetchOne_ret codec h1
      exact ⟨[], [], .refl _⟩
    · rename_i h1
      obtain ⟨g, s, hg⟩ := fetchOne_grouped codec h1
      obtain ⟨groups, samples, hr⟩ := ih h
      exact ⟨_, _, hg.trans hr⟩

theorem requestLoop_grouped {w : Worker} {numSamples : Int} {st st' : Fetch P ε}
    {r : Option Status} (h : requestLoop codec w numSamples st = some (st', r)) :
    ∃ groups samples, Grouped codec st st' groups samples := by
  generalize hrem : (numSamples - st.numSamplesReturned).toNat = rem
  induction rem using Nat.strong_induction_on generalizing st with
  | _ rem ih =>
    rw [requestLoop] at h
    split at h
    · rename_i hlt
      split at h
      · rename_i writes _
        dsimp only at h
        split at h
        · cases h
        · rename_i hf
          cases h
          obtain ⟨groups, samples, hg⟩ := fetchLoop_grouped codec hf
          exact ⟨groups, samples, by simpa using (Grouped.write st writes _).trans hg⟩
        · rename_i st'' hf
          have h1 := fetchLoop_numSamplesReturned codec hf
          have h2 := requestSize_bounds (w := w) hlt
          simp only at h1
          obtain ⟨g₁, s₁, h₁⟩ := fetchLoop_grouped codec hf
          obtain ⟨g₂, s₂, h₂⟩ := ih _ (by omega) h rfl
          exact ⟨_, _, ((Grouped.write st writes _).trans h₁).trans h₂⟩
      · cases h
        exact ⟨[], [], .refl _⟩
    · cases h
      exact ⟨[], [], .refl _⟩

/-- `OpenStreamAndFetch` は、始めの状態から `Grouped` な状態へ進み、入れた sample は残したことの
sample である。`closed_` で戻ったときは何も読まず、何も入れない。 -/
theorem openStreamAndFetch_grouped {w : Worker} {env : Env P} {numSamples : Int}
    {trace : List (Event ε)} {count : Int} {status : Status}
    (h : openStreamAndFetch codec w env numSamples = some (trace, count, status)) :
    ∃ groups st', Grouped codec ⟨env, [], 0⟩ st' groups (pushedSamples trace) := by
  unfold openStreamAndFetch at h
  split at h
  · cases h
    exact ⟨[], _, .refl _⟩
  · cases hr : requestLoop codec w numSamples ⟨env, [], 0⟩ with
    | none => simp [hr] at h
    | some p =>
      obtain ⟨st, o⟩ := p
      obtain ⟨groups, samples, hg⟩ := requestLoop_grouped codec hr
      have hp : pushedSamples st.trace = samples := by simpa [pushedSamples] using hg.pushed
      have htrace : trace = st.trace := by
        simp only [hr, Option.bind_eq_bind, Option.some_bind] at h
        cases o with
        | some status' => exact (Prod.mk.inj (Option.some.inj h)).1.symm
        | none =>
          by_cases heq : st.numSamplesReturned = numSamples
          · simp only [heq, ↓reduceIte, Option.some.injEq, Prod.mk.injEq] at h
            exact h.1.symm
          · simp [heq] at h
      exact ⟨groups, st, htrace ▸ hp ▸ hg⟩

/-- **stream の区切り**：`OpenStreamAndFetch` が queue に入れる sample は、stream の先頭から読んだ
response を、読み終えたまとまり（`ReadDone`）に区切って順に `AsSample` したものである。
response は飛ばされず、順も変わらず、二つの sample にまたがらない。 -/
theorem openStreamAndFetch_groups (w : Worker) (env : Env P) (numSamples : Int)
    {trace : List (Event ε)} {count : Int} {status : Status}
    (h : openStreamAndFetch codec w env numSamples = some (trace, count, status)) :
    ∃ (groups : List (List (SampleStreamResponse P))) (rest : List (SampleStreamResponse P)),
      env.reads = groups.flatten ++ rest ∧
      groups.mapM (asSample codec) = some (pushedSamples trace) ∧
      ∀ g ∈ groups, ReadDone codec g := by
  obtain ⟨groups, st', hg⟩ := openStreamAndFetch_grouped codec h
  exact ⟨groups, st'.env.reads, hg.reads, hg.built, hg.done⟩

/-- 二行の item を一つの response で一つずつ届ける stream から、二つの request で二つの sample を
queue に入れる。 -/
theorem openStreamAndFetch_two_items :
    openStreamAndFetch
      (⟨fun _ => 2, fun _ => .stack [.scalar (.elem ()), .scalar (.elem ())], fun t _ => t⟩ :
        Codec Unit Unit)
      ⟨"", 1, by decide, false⟩
      ⟨[true, true], [⟨⟨⟨0, ⟨0, 2⟩⟩, 1, 1⟩, ⟨[()], false⟩⟩, ⟨⟨⟨0, ⟨0, 2⟩⟩, 1, 1⟩, ⟨[()], false⟩⟩],
        [true, true], .okStatus⟩ 2
      = some ([.write ⟨"", 1⟩,
          .push ⟨0, 1, 1, 2, 1, [[.stack [.scalar (.elem ()), .scalar (.elem ())]]], 0, false⟩,
          .write ⟨"", 1⟩,
          .push ⟨0, 1, 1, 2, 1, [[.stack [.scalar (.elem ()), .scalar (.elem ())]]], 0, false⟩],
        2, .okStatus) := by
  have h₂ : requestLoop
      (⟨fun _ => 2, fun _ => .stack [.scalar (.elem ()), .scalar (.elem ())], fun t _ => t⟩ :
        Codec Unit Unit) ⟨"", 1, by decide, false⟩ 2
      ⟨⟨[true], [⟨⟨⟨0, ⟨0, 2⟩⟩, 1, 1⟩, ⟨[()], false⟩⟩], [true], .okStatus⟩, [.write ⟨"", 1⟩,
        .push ⟨0, 1, 1, 2, 1, [[.stack [.scalar (.elem ()), .scalar (.elem ())]]], 0, false⟩], 1⟩
      = some (⟨⟨[], [], [], .okStatus⟩, [.write ⟨"", 1⟩,
          .push ⟨0, 1, 1, 2, 1, [[.stack [.scalar (.elem ()), .scalar (.elem ())]]], 0, false⟩,
          .write ⟨"", 1⟩,
          .push ⟨0, 1, 1, 2, 1, [[.stack [.scalar (.elem ()), .scalar (.elem ())]]], 0, false⟩],
          2⟩, none) :=
    requestLoop_last _ (by decide) rfl rfl (by decide)
  have h₁ : requestLoop
      (⟨fun _ => 2, fun _ => .stack [.scalar (.elem ()), .scalar (.elem ())], fun t _ => t⟩ :
        Codec Unit Unit) ⟨"", 1, by decide, false⟩ 2
      ⟨⟨[true, true], [⟨⟨⟨0, ⟨0, 2⟩⟩, 1, 1⟩, ⟨[()], false⟩⟩, ⟨⟨⟨0, ⟨0, 2⟩⟩, 1, 1⟩, ⟨[()], false⟩⟩],
        [true, true], .okStatus⟩, [], 0⟩
      = requestLoop
      (⟨fun _ => 2, fun _ => .stack [.scalar (.elem ()), .scalar (.elem ())], fun t _ => t⟩ :
        Codec Unit Unit) ⟨"", 1, by decide, false⟩ 2
      ⟨⟨[true], [⟨⟨⟨0, ⟨0, 2⟩⟩, 1, 1⟩, ⟨[()], false⟩⟩], [true], .okStatus⟩, [.write ⟨"", 1⟩,
        .push ⟨0, 1, 1, 2, 1, [[.stack [.scalar (.elem ()), .scalar (.elem ())]]], 0, false⟩], 1⟩ :=
    requestLoop_next _ (by decide) rfl rfl
  unfold openStreamAndFetch
  rw [if_neg (by decide), h₁, h₂]
  rfl

/-- 二つの request で二つの item を読む stream。response は一つずつ、二つのまとまりに区切られる。 -/
theorem openStreamAndFetch_groups_two_items :
    let codec : Codec Unit Unit :=
      ⟨fun _ => 2, fun _ => .stack [.scalar (.elem ()), .scalar (.elem ())], fun t _ => t⟩
    let r₀ : SampleStreamResponse Unit := ⟨⟨⟨0, ⟨0, 2⟩⟩, 1, 1⟩, ⟨[()], false⟩⟩
    let env : Env Unit := ⟨[true, true], [r₀, r₀], [true, true], .okStatus⟩
    ∃ trace : List (Event Unit),
      openStreamAndFetch codec ⟨"", 1, by decide, false⟩ env 2 = some (trace, 2, .okStatus) ∧
      (pushedSamples trace).length = 2 ∧
      ∃ (groups : List (List (SampleStreamResponse Unit)))
        (rest : List (SampleStreamResponse Unit)),
        env.reads = groups.flatten ++ rest ∧
        groups.mapM (asSample codec) = some (pushedSamples trace) ∧
        ∀ g ∈ groups, ReadDone codec g := by
  intro codec r₀ env
  exact ⟨_, openStreamAndFetch_two_items, rfl,
    openStreamAndFetch_groups codec _ env 2 openStreamAndFetch_two_items⟩

/-! ## OK と足りない数 -/

theorem exists_of_mem_mapM {α β : Type} {f : α → Option β} :
    ∀ {l : List α} {l' : List β}, l.mapM f = some l' → ∀ b ∈ l', ∃ a ∈ l, f a = some b
  | [], l', h, b, hb => by
    obtain rfl : l' = [] := (Option.some.inj h).symm
    cases hb
  | a :: l, l', h, b, hb => by
    simp only [List.mapM_cons, bind, Option.bind_eq_some, pure, Option.some.injEq] at h
    obtain ⟨b₀, hb₀, bs, hbs, rfl⟩ := h
    rcases List.mem_cons.1 hb with rfl | hb
    · exact ⟨a, List.mem_cons_self _ _, hb₀⟩
    · obtain ⟨a', ha', h'⟩ := exists_of_mem_mapM hbs b hb
      exact ⟨a', List.mem_cons_of_mem _ ha', h'⟩

theorem ReadDone.ne_nil {g : List (SampleStreamResponse P)} (h : ReadDone codec g) : g ≠ [] := by
  rintro rfl
  cases h.1

/-- 読み終えたまとまりの、それより短い先頭は、まだ読み終えていない。 -/
theorem ReadDone.of_isPrefix {g a : List (SampleStreamResponse P)} (hg : ReadDone codec g)
    (ha : a <+: g) (hne : a ≠ g) : sampleIsDone codec a = some false := by
  have hlt : a.length < g.length := lt_of_le_of_ne ha.length_le fun h => hne (ha.eq_of_length h)
  rw [List.prefix_iff_eq_take.1 ha]
  exact hg.2 _ hlt

theorem ReadDone.dropLast {g : List (SampleStreamResponse P)} (hg : ReadDone codec g) :
    sampleIsDone codec g.dropLast = some false := by
  rw [List.dropLast_eq_take]
  exact hg.2 _ (Nat.sub_lt (List.length_pos.2 (ReadDone.ne_nil codec hg)) one_pos)

/-- 読み終えたまとまりに response を足した並びは、もう読み終えたまとまりではない。 -/
theorem eq_nil_of_readDone_append {g a : List (SampleStreamResponse P)} (hg : ReadDone codec g)
    (hga : ReadDone codec (g ++ a)) : a = [] := by
  by_contra ha
  have h := ReadDone.of_isPrefix codec hga (List.prefix_append g a) (by simpa using ha)
  rw [hg.1] at h
  cases h

/-- 読み終えたまとまり `g` を `acc` まで読んだところから読み続けると、ちょうど `g` で読み終え、
stream の続き `rest` を残す。 -/
theorem readResponses_readDone {g rest : List (SampleStreamResponse P)} (hg : ReadDone codec g) :
    ∀ (suffix acc : List (SampleStreamResponse P)), acc ++ suffix = g →
      readResponses codec acc (suffix ++ rest) = some (.done g rest)
  | [], acc, h => by
    rw [List.append_nil] at h
    subst h
    rw [readResponses.eq_def, hg.1]
    rfl
  | x :: xs, acc, h => by
    have hacc := ReadDone.of_isPrefix codec hg ⟨x :: xs, h⟩ (by rintro rfl; simp at h)
    rw [List.cons_append, readResponses, hacc]
    exact readResponses_readDone hg xs (acc ++ [x]) (by simpa using h)

/-- **区切り方は一つ**：stream の先頭の、読み終えたまとまりは一つに決まる。 -/
theorem readDone_det {g i x y : List (SampleStreamResponse P)} (hg : ReadDone codec g)
    (hi : ReadDone codec i) (h : g ++ x = i ++ y) : g = i ∧ x = y := by
  rcases List.append_eq_append_iff.1 h with ⟨a, rfl, rfl⟩ | ⟨c, rfl, rfl⟩
  · obtain rfl := eq_nil_of_readDone_append codec hg hi
    simp
  · obtain rfl := eq_nil_of_readDone_append codec hi hg
    simp

section Items

variable {k : Nat} (hk : 0 < k)
include hk

/-- 形の揃った並びでは、`SampleIsDone` は読み進めても真のまま。 -/
theorem sampleIsDone_append {a b : List (SampleStreamResponse P)} (ha : a ≠ [])
    (hs : ∀ r ∈ a ++ b, ∃ n, 0 < n ∧ Shaped codec k n r) (h : sampleIsDone codec a = some true) :
    sampleIsDone codec (a ++ b) = some true := by
  obtain ⟨r₀, a, rfl⟩ := List.exists_cons_of_ne_nil ha
  have hs' := fun r hr => (shaped_rowCount codec hk (hs r hr)).2
  rw [sampleIsDone_shaped codec hk fun r hr => hs' r (List.mem_append_left _ hr)] at h
  have hs'' : ∀ r ∈ r₀ :: (a ++ b), Shaped codec k (rowCount codec r) r := hs'
  rw [List.cons_append, sampleIsDone_shaped codec hk hs'']
  simp only [Option.some.injEq, decide_eq_true_eq, List.map_cons, List.sum_cons, List.map_append,
    List.sum_append] at h ⊢
  omega

/-- stream が読み終えたまとまり `items` と、読み終えない残り `cut` でできていれば、stream の先頭を
読み終えたまとまりに区切った並びは、`items` の先頭である。 -/
theorem groups_isPrefix_items :
    ∀ {groups items : List (List (SampleStreamResponse P))}
      {rest cut : List (SampleStreamResponse P)},
      (∀ r ∈ items.flatten ++ cut, ∃ n, 0 < n ∧ Shaped codec k n r) →
      (∀ g ∈ groups, ReadDone codec g) → (∀ g ∈ items, ReadDone codec g) →
      sampleIsDone codec cut = some false →
      groups.flatten ++ rest = items.flatten ++ cut → groups <+: items
  | [], _, _, _, _, _, _, _, _ => List.nil_prefix
  | g :: gs, [], rest, cut, hs, hg, _, hcut, h => by
    have hg₀ := hg g (List.mem_cons_self _ _)
    simp only [List.flatten_cons, List.flatten_nil, List.nil_append, List.append_assoc] at h hs
    rw [← h, sampleIsDone_append codec hk hg₀.ne_nil (h ▸ hs) hg₀.1] at hcut
    cases hcut
  | g :: gs, i :: is, rest, cut, hs, hg, hi, hcut, h => by
    simp only [List.flatten_cons, List.append_assoc] at h hs
    obtain ⟨rfl, h'⟩ := readDone_det codec (hg g (List.mem_cons_self _ _))
      (hi i (List.mem_cons_self _ _)) h
    exact (List.prefix_cons_inj g).2
      (groups_isPrefix_items (fun r hr => hs r (List.mem_append_right _ hr))
      (fun x hx => hg x (List.mem_cons_of_mem _ hx)) (fun x hx => hi x (List.mem_cons_of_mem _ hx))
      hcut h')

end Items

/-- 一つの item を届ける response の並び：`SampleIsDone` が最後の response で初めて真になり、
最初の response が `offset` 行目を含み、`length` は 1 以上。 -/
structure Item (g : List (SampleStreamResponse P)) : Prop where
  done : ReadDone codec g
  head : ∀ r₀ ∈ g.head?, 0 ≤ r₀.info.item.sequenceRange.offset ∧
    1 ≤ r₀.info.item.sequenceRange.length ∧ r₀.info.item.sequenceRange.offset < rowCount codec r₀

/-- 一つの item の、形の揃った response から、`AsSample` は行を取り出せる sample を組む。 -/
theorem asSample_item {k : Nat} (hk : 0 < k) {g : List (SampleStreamResponse P)} (hi : Item codec g)
    (hs : ∀ r ∈ g, ∃ n, 0 < n ∧ Shaped codec k n r) :
    ∃ s : Sample ε, asSample codec g = some s ∧ s.Ready := by
  obtain ⟨r₀, rest, rfl⟩ := List.exists_cons_of_ne_nil hi.done.ne_nil
  obtain ⟨h0, hlen, hoff⟩ := hi.head r₀ rfl
  have hs' := fun r hr => shaped_rowCount codec hk (hs r hr)
  obtain ⟨hlt, hge⟩ := (sampleIsDone_first_iff codec hk (fun r hr => (hs' r hr).2) h0 hlen).1
    ⟨hi.done.1, ReadDone.dropLast codec hi.done⟩
  obtain ⟨chunks, hloop, hof, hval, -, -⟩ := asSampleLoop_chunks codec hk (r₀ :: rest) _ _ hs'
    (by omega) (by simpa using hoff) (by omega) hge hlt
  have hne : chunks ≠ [] := by
    rintro rfl
    cases hof
  obtain ⟨s, hnew⟩ : ∃ s : Sample ε, Sample.new r₀.info.item.key r₀.info.probability
      r₀.info.tableSize chunks = some s := ⟨_, Sample.new_eq hne fun c hc => (hval c hc).1⟩
  refine ⟨s, ?_, Sample.new_ready hval hnew⟩
  simp only [asSample, hloop, Option.bind_eq_bind, Option.some_bind, ↓reduceIte]
  exact hnew

/-- **item を届ける stream**：stream が、data tensor を `k` 個ずつ持ち行数が正の response で
`Item` を順に届け、最後は item の途中で切れてもよいとする。このとき `OpenStreamAndFetch` が
queue に入れる sample は、先頭の item から順に一つずつ `AsSample` したもので、どれも行を
取り出せる（`Sample.Ready`）。`World.ReadyReachable` が stream に求めるのはこれである。 -/
theorem openStreamAndFetch_items {k : Nat} (hk : 0 < k) (w : Worker) {env : Env P}
    {numSamples : Int} {items : List (List (SampleStreamResponse P))}
    {cut : List (SampleStreamResponse P)} (hreads : env.reads = items.flatten ++ cut)
    (hshape : ∀ r ∈ env.reads, ∃ n, 0 < n ∧ Shaped codec k n r)
    (hitems : ∀ g ∈ items, Item codec g) (hcut : sampleIsDone codec cut = some false)
    {trace : List (Event ε)} {count : Int} {status : Status}
    (h : openStreamAndFetch codec w env numSamples = some (trace, count, status)) :
    (∃ taken more, items = taken ++ more ∧
      taken.mapM (asSample codec) = some (pushedSamples trace)) ∧
      ∀ s ∈ pushedSamples trace, s.Ready := by
  obtain ⟨groups, st', hg⟩ := openStreamAndFetch_grouped codec h
  obtain ⟨more, hmore⟩ := groups_isPrefix_items codec hk (hreads ▸ hshape) hg.done
    (fun g h => (hitems g h).done) hcut (hg.reads.symm.trans hreads)
  refine ⟨⟨groups, more, hmore.symm, hg.built⟩, fun s hsp => ?_⟩
  obtain ⟨g, hgm, hgs⟩ := exists_of_mem_mapM hg.built s hsp
  obtain ⟨s', hs', hready⟩ := asSample_item codec hk (hitems g (hmore ▸ List.mem_append_left _ hgm))
    fun r hr => hshape r (hg.reads ▸ List.mem_append_left _ (List.mem_flatten.2 ⟨g, hgm, hr⟩))
  obtain rfl := Option.some.inj (hs'.symm.trans hgs)
  exact hready

/-- 二行の item を一つの response で届ける stream は、形が揃い、`Item` である。 -/
theorem item_two_rows :
    let codec : Codec Unit Unit :=
      ⟨fun _ => 2, fun _ => .stack [.scalar (.elem ()), .scalar (.elem ())], fun t _ => t⟩
    let r₀ : SampleStreamResponse Unit := ⟨⟨⟨0, ⟨0, 2⟩⟩, 1, 1⟩, ⟨[()], false⟩⟩
    (∀ r ∈ [r₀], ∃ n, 0 < n ∧ Shaped codec 1 n r) ∧ Item codec [r₀] := by
  intro codec r₀
  refine ⟨fun r hr => ?_, ⟨⟨rfl, fun n hn => ?_⟩, fun r h => by cases h; decide⟩⟩
  · obtain rfl : r = r₀ := List.mem_singleton.1 hr
    exact ⟨2, by decide, ⟨rfl, by simp [codec], by simp [codec, r₀, decodeChunk]⟩⟩
  · obtain rfl : n = 0 := by simpa using hn
    rfl

/-- 二つの request で二つの item を読む stream から入れる sample は、二つの item をそれぞれ
`AsSample` したもので、どちらも行を取り出せる。 -/
theorem openStreamAndFetch_items_two_items :
    let codec : Codec Unit Unit :=
      ⟨fun _ => 2, fun _ => .stack [.scalar (.elem ()), .scalar (.elem ())], fun t _ => t⟩
    let r₀ : SampleStreamResponse Unit := ⟨⟨⟨0, ⟨0, 2⟩⟩, 1, 1⟩, ⟨[()], false⟩⟩
    let env : Env Unit := ⟨[true, true], [r₀, r₀], [true, true], .okStatus⟩
    ∃ trace : List (Event Unit),
      openStreamAndFetch codec ⟨"", 1, by decide, false⟩ env 2 = some (trace, 2, .okStatus) ∧
      (∀ r ∈ env.reads, ∃ n, 0 < n ∧ Shaped codec 1 n r) ∧ Item codec [r₀] ∧
      (∃ taken more, [[r₀], [r₀]] = taken ++ more ∧
        taken.mapM (asSample codec) = some (pushedSamples trace)) ∧
      ∀ s ∈ pushedSamples trace, s.Ready := by
  intro codec r₀ env
  obtain ⟨hshape, hitem⟩ := item_two_rows
  have hreads : ∀ r ∈ env.reads, ∃ n, 0 < n ∧ Shaped codec 1 n r := fun r hr =>
    hshape r (by simpa [env] using hr)
  exact ⟨_, openStreamAndFetch_two_items, hreads, hitem, openStreamAndFetch_items codec
    (by decide) _ (show env.reads = [[r₀], [r₀]].flatten ++ [] from rfl) hreads
    (fun g hg => by
      obtain rfl : g = [r₀] := by simpa using hg
      exact hitem)
    rfl openStreamAndFetch_two_items⟩

/-! ## stream が揃えば OK で返る -/

section Complete

variable {k : Nat} (hk : 0 < k) {cut : List (SampleStreamResponse P)}
include hk

/-- stream の先頭が item で `Push` が受け入れられるなら、`fetchOne` はその item を読み切り、
`AsSample` して queue に入れ、先へ進む。 -/
theorem fetchOne_item {st : Fetch P ε} {g rest : List (SampleStreamResponse P)}
    {pushes : List Bool} (hreads : st.env.reads = g ++ rest) (hg : Item codec g)
    (hs : ∀ r ∈ g, ∃ n, 0 < n ∧ Shaped codec k n r) (hp : st.env.pushes = true :: pushes) :
    ∃ st' s, fetchOne codec st = some (st', none) ∧ Grouped codec st st' [g] [s] ∧
      st'.env.reads = rest ∧ st'.env.pushes = pushes ∧ st'.env.writes = st.env.writes := by
  obtain ⟨s, hs', -⟩ := asSample_item codec hk hg hs
  have hread : readResponses codec [] (g ++ rest) = some (.done g rest) :=
    readResponses_readDone codec hg.done g [] rfl
  refine ⟨{ st with env := { st.env with reads := rest, pushes },
                    trace := st.trace ++ [.push s],
                    numSamplesReturned := st.numSamplesReturned + 1 }, s, ?_,
    ⟨by simpa using hreads, by simp [pushedSamples], by rw [List.mapM_cons, hs']; rfl,
      by simpa using hg.done⟩, rfl, rfl, rfl⟩
  simp only [fetchOne, hreads, hread, hs', hp]

/-- `for` は、item が `n` 個以上届き `Push` が `n` 回受け入れられるなら、先頭の `n` 個の item を
順に入れて抜ける。 -/
theorem fetchLoop_items :
    ∀ (n : Nat) (st : Fetch P ε) (items : List (List (SampleStreamResponse P))) (b : Nat),
      st.env.reads = items.flatten ++ cut → n ≤ items.length → (∀ g ∈ items, Item codec g) →
      (∀ r ∈ items.flatten ++ cut, ∃ n, 0 < n ∧ Shaped codec k n r) →
      st.env.pushes = List.replicate b true → n ≤ b →
      ∃ st' samples, fetchLoop codec n st = some (st', none) ∧
        Grouped codec st st' (items.take n) samples ∧
        st'.env.reads = (items.drop n).flatten ++ cut ∧
        st'.env.pushes = List.replicate (b - n) true ∧ st'.env.writes = st.env.writes
  | 0, st, items, b, hr, _, _, _, hp, _ =>
    ⟨st, [], rfl, .refl st, by simpa using hr, by simpa using hp, rfl⟩
  | n + 1, st, g :: items, b + 1, hr, hn, hi, hs, hp, hb => by
    simp only [List.flatten_cons, List.append_assoc] at hr hs
    obtain ⟨st₁, s, h1, hg1, hr1, hp1, hw1⟩ :=
      fetchOne_item codec hk hr (hi g (List.mem_cons_self _ _))
      (fun r hr => hs r (List.mem_append_left _ hr)) hp
    obtain ⟨st', samples, h2, hg2, hr2, hp2, hw2⟩ := fetchLoop_items n st₁ items b hr1
      (by simpa using hn) (fun x hx => hi x (List.mem_cons_of_mem _ hx))
      (fun r hr => hs r (List.mem_append_right _ hr)) hp1 (by omega)
    refine ⟨st', s :: samples, ?_, hg1.trans hg2, by simpa using hr2, by simpa using hp2,
      hw2.trans hw1⟩
    rw [fetchLoop, h1]
    exact h2
  | _ + 1, _, [], _, _, hn, _, _, _, _ => absurd hn (by simp)
  | _ + 1, _, _ :: _, 0, _, _, _, _, _, hb => absurd hb (by omega)

/-- `while` は、残りの数以上の item が届き、`Write` と `Push` が残りの数だけ受け入れられるなら、
残りの数の item を順に入れて抜ける。 -/
theorem requestLoop_items (w : Worker) (numSamples : Int) :
    ∀ (st : Fetch P ε) (items : List (List (SampleStreamResponse P))) (a b : Nat),
      st.numSamplesReturned ≤ numSamples → st.env.reads = items.flatten ++ cut →
      numSamples - st.numSamplesReturned ≤ items.length → (∀ g ∈ items, Item codec g) →
      (∀ r ∈ items.flatten ++ cut, ∃ n, 0 < n ∧ Shaped codec k n r) →
      st.env.writes = List.replicate a true → numSamples - st.numSamplesReturned ≤ a →
      st.env.pushes = List.replicate b true → numSamples - st.numSamplesReturned ≤ b →
      ∃ st' samples, requestLoop codec w numSamples st = some (st', none) ∧
        Grouped codec st st' (items.take (numSamples - st.numSamplesReturned).toNat) samples := by
  intro st
  generalize hrem : (numSamples - st.numSamplesReturned).toNat = rem
  induction rem using Nat.strong_induction_on generalizing st with
  | _ rem ih =>
    intro items a b hle hr hn hi hs hw ha hp hb
    rw [requestLoop]
    by_cases hlt : st.numSamplesReturned < numSamples
    · rw [if_pos hlt]
      obtain ⟨h1, h2, h3⟩ := requestSize_bounds (w := w) hlt
      obtain ⟨a, rfl⟩ : ∃ a', a = a' + 1 := ⟨a - 1, by omega⟩
      have hm : (requestSize w numSamples st.numSamplesReturned).toNat ≤ items.length := by omega
      obtain ⟨st₁, s₁, hf, hg₁, hr₁, hp₁, hw₁⟩ := fetchLoop_items codec hk
        (requestSize w numSamples st.numSamplesReturned).toNat
        { st with env := { st.env with writes := List.replicate a true },
                  trace := st.trace ++
                    [.write ⟨w.table, requestSize w numSamples st.numSamplesReturned⟩] }
        items b hr hm hi hs hp (by omega)
      have hret := fetchLoop_numSamplesReturned codec hf
      simp only at hret
      have hs₁ : ∀ r ∈ (items.drop (requestSize w numSamples st.numSamplesReturned).toNat).flatten
          ++ cut, ∃ n, 0 < n ∧ Shaped codec k n r := by
        rw [← List.take_append_drop (requestSize w numSamples st.numSamplesReturned).toNat items,
          List.flatten_append, List.append_assoc] at hs
        exact fun r hr => hs r (List.mem_append_right _ hr)
      obtain ⟨st', s₂, hloop, hg₂⟩ := ih _ (by omega) st₁ rfl _ a _ (by omega) hr₁
        (by simp only [List.length_drop]; omega) (fun x hx => hi x (List.mem_of_mem_drop hx)) hs₁
        (hw₁.trans rfl) (by omega) hp₁ (by omega)
      refine ⟨st', s₁ ++ s₂, ?_, ?_⟩
      · rw [hw, List.replicate_succ]
        dsimp only
        split <;> rename_i heq <;> have := heq.symm.trans hf <;> cases this
        exact hloop
      · have hsplit : rem = (requestSize w numSamples st.numSamplesReturned).toNat
            + (numSamples - st₁.numSamplesReturned).toNat := by omega
        rw [hsplit, List.take_add]
        simpa using ((Grouped.write st _ _).trans hg₁).trans hg₂
    · rw [if_neg hlt]
      obtain rfl : rem = 0 := by omega
      exact ⟨st, [], rfl, .refl st⟩

end Complete

/-- **stream が揃えば OK で返る**：worker が `Close` されておらず、stream が `Item` を
`num_samples` 個以上届け（その後は item の途中で切れてもよい）、`Write` と `Push` が
`num_samples` 回まで受け入れられるなら、`OpenStreamAndFetch` は `num_samples` と OK を返し、
先頭の `num_samples` 個の item を順に `AsSample` して queue に入れている。 -/
theorem openStreamAndFetch_ok {k : Nat} (hk : 0 < k) (w : Worker) (hclosed : w.closed = false)
    {env : Env P} {numSamples : Int} (hns : 0 ≤ numSamples)
    {items : List (List (SampleStreamResponse P))} {cut : List (SampleStreamResponse P)}
    (hreads : env.reads = items.flatten ++ cut)
    (hshape : ∀ r ∈ env.reads, ∃ n, 0 < n ∧ Shaped codec k n r)
    (hitems : ∀ g ∈ items, Item codec g) (hlen : numSamples ≤ items.length) {nw np : Nat}
    (hw : env.writes = List.replicate nw true) (hnw : numSamples ≤ nw)
    (hp : env.pushes = List.replicate np true) (hnp : numSamples ≤ np) :
    ∃ trace : List (Event ε),
      openStreamAndFetch codec w env numSamples = some (trace, numSamples, .okStatus) ∧
      (items.take numSamples.toNat).mapM (asSample codec) = some (pushedSamples trace) := by
  obtain ⟨st, samples, hloop, hg⟩ :=
    requestLoop_items codec hk w numSamples ⟨env, [], 0⟩ items nw np
    hns hreads (by simpa using hlen) hitems (hreads ▸ hshape) hw (by simpa using hnw) hp
    (by simpa using hnp)
  obtain ⟨-, -, -, hnone, -⟩ := requestLoop_rounds codec hns hloop
  have hpushed : pushedSamples st.trace = samples := by simpa [pushedSamples] using hg.pushed
  refine ⟨st.trace, ?_, by simpa [hpushed] using hg.built⟩
  simp [openStreamAndFetch, hclosed, hloop, hnone rfl]

/-- 二つの item を届け、`Write` と `Push` を二回ずつ受け入れる stream では、二つの request で
ループが回り切り、OK と 2 を返す。 -/
theorem openStreamAndFetch_ok_two_items :
    let codec : Codec Unit Unit :=
      ⟨fun _ => 2, fun _ => .stack [.scalar (.elem ()), .scalar (.elem ())], fun t _ => t⟩
    let r₀ : SampleStreamResponse Unit := ⟨⟨⟨0, ⟨0, 2⟩⟩, 1, 1⟩, ⟨[()], false⟩⟩
    let env : Env Unit := ⟨[true, true], [r₀, r₀], [true, true], .okStatus⟩
    (∀ r ∈ env.reads, ∃ n, 0 < n ∧ Shaped codec 1 n r) ∧ Item codec [r₀] ∧
      ∃ trace : List (Event Unit),
        openStreamAndFetch codec ⟨"", 1, by decide, false⟩ env 2 = some (trace, 2, .okStatus) ∧
        ([[r₀], [r₀]].take (2 : Int).toNat).mapM (asSample codec) = some (pushedSamples trace) := by
  intro codec r₀ env
  obtain ⟨hshape, hitem⟩ := item_two_rows
  have hreads : ∀ r ∈ env.reads, ∃ n, 0 < n ∧ Shaped codec 1 n r := fun r hr =>
    hshape r (by simpa [env] using hr)
  exact ⟨hreads, hitem, openStreamAndFetch_ok codec (by decide) _ rfl (by decide)
    (show env.reads = [[r₀], [r₀]].flatten ++ [] from rfl) hreads
    (fun g hg => by
      obtain rfl : g = [r₀] := by simpa using hg
      exact hitem)
    (by decide) (show env.writes = List.replicate 2 true from rfl) (by decide)
    (show env.pushes = List.replicate 2 true from rfl) (by decide)⟩

/-! ## queue の sample は手つかず -/

namespace Sample

/-- 一度も `GetNextTimestep` を呼ばれておらず、先頭の行から始まる sample。 -/
def Fresh (s : Sample ε) : Prop := s.nextTimestepCalled = false ∧ s.nextTimestepIndex = 0

theorem new_fresh {key : UInt64} {probability : Float} {tableSize : Int}
    {chunks : List (List (Tensor ε))} {s : Sample ε}
    (h : new key probability tableSize chunks = some s) : s.Fresh := by
  unfold new at h
  split at h
  · obtain ⟨dims, -, h⟩ := Option.bind_eq_some.1 h
    cases h
    exact ⟨rfl, rfl⟩
  · cases h

end Sample

/-- `AsSample` が組む sample は手つかずである。 -/
theorem asSample_fresh {responses : List (SampleStreamResponse P)} {s : Sample ε}
    (h : asSample codec responses = some s) : s.Fresh := by
  unfold asSample at h
  split at h
  · cases h
  · obtain ⟨⟨chunks, remaining⟩, -, h⟩ := Option.bind_eq_some.1 h
    dsimp only at h
    split_ifs at h
    exact Sample.new_fresh h

/-- stream が queue に入れる sample は、どれも手つかずである。 -/
theorem openStreamAndFetch_fresh {w : Worker} {env : Env P} {numSamples : Int}
    {trace : List (Event ε)} {count : Int} {status : Status}
    (h : openStreamAndFetch codec w env numSamples = some (trace, count, status)) :
    ∀ s ∈ pushedSamples trace, s.Fresh := fun s hs => by
  obtain ⟨groups, st', hg⟩ := openStreamAndFetch_grouped codec h
  obtain ⟨g, -, hgs⟩ := exists_of_mem_mapM hg.built s hs
  exact asSample_fresh codec hgs

namespace ReplaySampler

variable {r r' : ReplaySampler ε}

/-- `GetNextTimestep` の前半は queue の sample を取り除くだけで、足さない。 -/
theorem takeTimestep_items {result : Except Status (List (Tensor ε) × Bool)}
    (h : r.takeTimestep = some (result, r')) : ∀ s ∈ r'.samples.items, s ∈ r.samples.items := by
  rcases result with status | ⟨data, eos⟩
  · rw [takeTimestep_error h]
    exact fun _ => id
  · obtain ⟨status, r₁, a, a', hm, -, -, -, rfl⟩ := takeTimestep_ok h
    rcases maybeSampleNext_cases hm with rfl | ⟨-, -, -, s, rest, hitems, rfl⟩
    · exact fun _ => id
    · exact fun x hx => by simp [hitems, hx]

/-- `GetNextSample` の前半は queue の sample を取り除くだけで、足さない。 -/
theorem takeSample_items {result : Except Status (List (Tensor ε))}
    (h : r.takeSample = some (result, r')) : ∀ s ∈ r'.samples.items, s ∈ r.samples.items := by
  rcases result with status | data
  · rw [takeSample_error h]
    exact fun _ => id
  · obtain ⟨-, s, rest, hitems, -, rfl⟩ := takeSample_ok h
    exact fun x hx => by simp [hitems, hx]

end ReplaySampler

namespace World

/-- queue の sample と、stream がこれから queue に入れる sample は、どれも手つかずである。 -/
structure Fresh (w : World ε) : Prop where
  items : ∀ s ∈ w.sampler.samples.items, s.Fresh
  pushes : ∀ t ∈ w.workers, ∀ s ∈ t.pc.pushes, s.Fresh

variable {w w' : World ε}

/-- 一つの thread の位置を、手つかずの sample だけを入れる位置に変える。 -/
theorem Fresh.pushes_set (hf : Fresh w) {i : Nat} {x : WorkerThread ε}
    (hx : ∀ s ∈ x.pc.pushes, s.Fresh) : ∀ t ∈ w.workers.set i x, ∀ s ∈ t.pc.pushes, s.Fresh :=
  fun t ht => (List.mem_or_eq_of_mem_set ht).elim (hf.pushes t) fun h => h ▸ hx

/-- **一歩**：どの thread のどの単位も `Fresh` を保つ。 -/
theorem step_fresh {codec : Codec P ε} (hf : Fresh w) (h : Step codec w w') : Fresh w' := by
  cases h with
  | @reserve i t result r hti hpc hres =>
    have hs := (ReplaySampler.reserve_frame hres).1
    exact ⟨fun s h => hf.items s (hs ▸ h),
      hf.pushes_set (by cases result <;> simp [WorkerPc.ofReserve])⟩
  | @openStream i t n env trace count status hti hpc hrun =>
    exact ⟨hf.items, hf.pushes_set (by simpa using openStreamAndFetch_fresh codec hrun)⟩
  | @push i t n s pushes result q hti hpc hpush =>
    have ht := hf.pushes t (List.getElem?_mem hti)
    rw [hpc] at ht
    refine ⟨?_, hf.pushes_set fun x hx => ht x (List.mem_cons_of_mem _ hx)⟩
    rw [Queue.push_true hpush]
    simp only [List.mem_append, List.mem_singleton]
    rintro x (hx | rfl)
    · exact hf.items x hx
    · exact ht x (by simp)
  | @finish i t n result stop r hti hpc hfin =>
    obtain ⟨-, -, -, -, -, hitems, -⟩ := ReplaySampler.finishStream_fields hfin
    exact ⟨hitems ▸ hf.items, hf.pushes_set (by split <;> simp)⟩
  | timestep _ ht =>
    exact ⟨fun s h => hf.items s (ReplaySampler.takeTimestep_items ht s h), hf.pushes⟩
  | sample _ ht =>
    exact ⟨fun s h => hf.items s (ReplaySampler.takeSample_items ht s h), hf.pushes⟩
  | count => exact ⟨by simpa using hf.items, hf.pushes⟩
  | close hm =>
    unfold ReplaySampler.markClosed at hm
    split at hm <;> obtain ⟨-, rfl⟩ := Prod.mk.inj hm
    · exact hf
    · exact ⟨hf.items, hf.pushes⟩
  | @cancel i t hcl hti => exact ⟨hf.items, hf.pushes_set (hf.pushes t (List.getElem?_mem hti))⟩
  | closeQueue => exact ⟨hf.items, hf.pushes⟩

/-- **走り**：`Fresh` な状態から先の走りは、どこでも `Fresh`。 -/
theorem reachable_fresh {codec : Codec P ε} {w₀ : World ε} (hf : Fresh w₀)
    (hw : Reachable codec w₀ w) : Fresh w := by
  induction hw with
  | init => exact hf
  | step _ hstep ih => exact step_fresh ih hstep

end World

/-- **queue の sample は手つかず**：どの走りでも、queue の sample と stream がこれから入れる sample は、
`GetNextTimestep` を一度も呼ばれておらず、先頭の行から始まる。`GetNextTimestep` が途中まで読んだ
sample は queue の外（今の sample）にあり、`GetNextSample` は queue からしか取り出さない。
そのため `GetNextSample` が値を返さないのは、queue が開いていて空のとき（待つ）か、queue の先頭の
手つかずの sample の chunk を束ねられないときに限り、`AsBatchedTimesteps` の
「Some time steps have been lost.」の `CHECK` は落ちない。 -/
theorem queued_samples_fresh (codec : Codec P ε) {maxSamples maxSamplesPerStream numWorkers : Int}
    {workers : List Worker} (hmax : 1 ≤ maxSamples) (hper : 1 ≤ maxSamplesPerStream) {w : World ε}
    (hw : World.Reachable codec (World.init maxSamples maxSamplesPerStream numWorkers workers) w) :
    (∀ s ∈ w.sampler.samples.items, s.nextTimestepCalled = false ∧ s.nextTimestepIndex = 0) ∧
    (∀ t ∈ w.workers, ∀ s ∈ t.pc.pushes, s.nextTimestepCalled = false ∧ s.nextTimestepIndex = 0) ∧
    (w.sampler.getNextSample = none →
      w.sampler.samples.closed = false ∧ w.sampler.samples.items = [] ∨
      ∃ s rest, w.sampler.samples.items = s :: rest ∧ s.nextTimestepCalled = false ∧
        s.asBatchedTimesteps = none) := by
  have hf := World.reachable_fresh
    ⟨by simp [World.init, ReplaySampler.init], by simp [World.init]⟩ hw
  refine ⟨hf.items, hf.pushes, fun hnone => ?_⟩
  have ht : w.sampler.takeSample = none := by
    cases h : w.sampler.takeSample with
    | none => rfl
    | some x => obtain ⟨_ | _, _⟩ := x <;> simp [ReplaySampler.getNextSample, h] at hnone
  cases hp : w.sampler.popNextSample with
  | none =>
    have hq : w.sampler.samples.pop = none := by simpa [ReplaySampler.popNextSample] using hp
    unfold Queue.pop at hq
    split at hq
    · cases hq
    · split at hq
      · rename_i hc _ hitems
        exact .inl ⟨Bool.eq_false_iff.2 hc, hitems⟩
      · cases hq
  | some x =>
    obtain ⟨status, sample, r₁⟩ := x
    by_cases hok : status.ok = true
    · obtain ⟨s, rfl⟩ :=
        ReplaySampler.popNextSample_ok (World.reachable_cause hmax hper hw).1 hp hok
      obtain ⟨-, -, rest, hitems, -⟩ := ReplaySampler.popNextSample_some hp
      refine .inr ⟨s, rest, hitems, (hf.items s (by simp [hitems])).1, ?_⟩
      cases hb : s.asBatchedTimesteps with
      | none => rfl
      | some data => simp [ReplaySampler.takeSample, hp, hok, hb] at ht
    · simp [ReplaySampler.takeSample, hp, hok] at ht

/-- 二行の item を一つの response で届ける stream から、一つの sample を queue に入れる。 -/
theorem openStreamAndFetch_one_response :
    ∃ s : Sample Unit, openStreamAndFetch
      (⟨fun _ => 2, fun _ => .stack [.scalar (.elem ()), .scalar (.elem ())], fun t _ => t⟩ :
        Codec Unit Unit)
      ⟨"", 1, by decide, false⟩
      ⟨[true], [⟨⟨⟨0, ⟨0, 2⟩⟩, 1, 1⟩, ⟨[()], false⟩⟩], [true], .okStatus⟩ 1
      = some ([.write ⟨"", 1⟩, .push s], 1, .okStatus) := by
  obtain ⟨s, hs⟩ : ∃ s, fetchLoop
      (⟨fun _ => 2, fun _ => .stack [.scalar (.elem ()), .scalar (.elem ())], fun t _ => t⟩ :
        Codec Unit Unit) 1
      ⟨⟨[], [⟨⟨⟨0, ⟨0, 2⟩⟩, 1, 1⟩, ⟨[()], false⟩⟩], [true], .okStatus⟩, [.write ⟨"", 1⟩], 0⟩
      = some (⟨⟨[], [], [], .okStatus⟩, [.write ⟨"", 1⟩, .push s], 1⟩, none) := ⟨_, rfl⟩
  refine ⟨s, ?_⟩
  unfold openStreamAndFetch
  rw [if_neg (by decide), requestLoop, if_pos (by decide)]
  dsimp only
  split <;> rename_i heq <;> cases heq.symm.trans hs
  rw [requestLoop, if_neg (lt_irrefl (1 : Int))]
  rfl

theorem queued_samples_fresh_one_push :
    let codec : Codec Unit Unit :=
      ⟨fun _ => 2, fun _ => .stack [.scalar (.elem ()), .scalar (.elem ())], fun t _ => t⟩
    let w₀ : World Unit := World.init 1 1 1 [⟨"", 1, by decide, false⟩]
    (1 : Int) ≤ 1 ∧ (1 : Int) ≤ 1 ∧ ∃ w, World.Reachable codec w₀ w ∧ w.sampler.samples.items ≠ [] ∧
      (∀ s ∈ w.sampler.samples.items, s.nextTimestepCalled = false ∧ s.nextTimestepIndex = 0) ∧
      (∀ t ∈ w.workers, ∀ s ∈ t.pc.pushes, s.nextTimestepCalled = false ∧ s.nextTimestepIndex = 0) ∧
      (w.sampler.getNextSample = none →
        w.sampler.samples.closed = false ∧ w.sampler.samples.items = [] ∨
        ∃ s rest, w.sampler.samples.items = s :: rest ∧ s.nextTimestepCalled = false ∧
          s.asBatchedTimesteps = none) := by
  intro codec w₀
  obtain ⟨s, hrun⟩ := openStreamAndFetch_one_response
  obtain ⟨w, hw, hitems⟩ : ∃ w, World.Reachable codec w₀ w ∧ w.sampler.samples.items = [s] :=
    ⟨_, .step (.step (.step .init (.reserve (i := 0) rfl rfl rfl))
      (.openStream (i := 0) _ rfl rfl hrun)) (.push (i := 0) rfl rfl rfl), rfl⟩
  exact ⟨le_rfl, le_rfl, w, hw, by simp [hitems], queued_samples_fresh codec le_rfl le_rfl hw⟩

end Reverb
