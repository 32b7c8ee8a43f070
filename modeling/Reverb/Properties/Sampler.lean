import Reverb.Sampler
import Reverb.Properties.Sample

/-!
# `GetNextTimestep` と `GetNextSample` が渡すもの

利用者が `GetNextTimestep` を続けて呼ぶと、queue から取り出した sample の行が、取り出した順に、
抜けも重なりもなく渡る。`GetNextSample` では、sample がまとめて、queue に入った順に渡る。

1. sample ごとに、渡す行と `*end_of_sequence` の列 `deliveries` を決める。
   `end_of_sequence` は各 sample の最後の行でだけ真である（`markLast`）。
2. 一回の呼び出しは、今の sample に行が残っていればその先頭を渡し、使い切っていれば
   queue の先頭を取り出してその先頭を渡す（`getNextTimestep_step`）。
3. 呼び出しの列と、その間の worker の `Push` などについての帰納法（`timestepRun_deliveries`）。
4. `GetNextSample` でも同じ形で、一回の呼び出し（`getNextSample_step`）から列（`SampleRun`）へ進む。

queue から取り出す sample は、行を取り出せるもの（`Sample.Ready`）とする。`AsSample` が
作る sample はこれである（`Sample.new_ready`）。
-/

namespace Reverb

open Tensor

namespace Sample

variable {ε : Type}

/-- 行に、それが最後の行かどうかを付ける。 -/
def markLast {α : Type} : List α → List (α × Bool)
  | [] => []
  | x :: xs => (x, xs.isEmpty) :: markLast xs

/-- sample を一行ずつ渡すときの、`GetNextTimestep` の結果 `(data, *end_of_sequence)` の列。 -/
def deliveries (s : Sample ε) : List (List (Tensor ε) × Bool) :=
  markLast (s.timesteps.map (s.meta ++ ·))

/-- queue から取り出して一行ずつ渡せる sample。`AsSample` が作る sample はこれである。 -/
structure Ready (s : Sample ε) : Prop where
  valid : s.Valid
  nonempty : s.chunks ≠ []

theorem isEndOfSample_eq {s : Sample ε} (hs : s.Valid) : s.isEndOfSample = s.timesteps.isEmpty := by
  rw [Bool.eq_iff_iff, isEndOfSample_iff, List.isEmpty_iff, timesteps_eq_nil_iff hs]

theorem deliveries_of_isEndOfSample {s : Sample ε} (hs : s.Valid) (h : s.isEndOfSample = true) :
    s.deliveries = [] := by
  rw [isEndOfSample_eq hs, List.isEmpty_iff] at h
  simp [deliveries, h, markLast]

/-- 一歩：`GetNextTimestep` は渡す列の先頭を返す。 -/
theorem getNextTimestep_deliveries {s s' : Sample ε} {data : List (Tensor ε)} (hs : s.Valid)
    (hg : s.getNextTimestep = some (data, s')) :
    s.deliveries = (data, s'.isEndOfSample) :: s'.deliveries ∧ s'.Valid := by
  have hne : s.chunks ≠ [] :=
    (isEndOfSample_iff s).not.1 (by simp [isEndOfSample_of_getNextTimestep hg])
  obtain ⟨x, s'', hget, htime, hs', hmeta⟩ := getNextTimestep_valid hs hne
  obtain ⟨rfl, rfl⟩ := Prod.mk.inj (Option.some.inj (hget.symm.trans hg))
  have hempty : ∀ l : List (List (Tensor ε)), (l.map (s.meta ++ ·)).isEmpty = l.isEmpty :=
    fun l => by cases l <;> rfl
  refine ⟨?_, hs'⟩
  simp [deliveries, htime, markLast, isEndOfSample_eq hs', hmeta, hempty]

/-- `Sample::Sample` が行を持つ chunk から作る sample は、一行ずつ渡せる。 -/
theorem new_ready {key : UInt64} {probability : Float} {tableSize : Int}
    {chunks : List (List (Tensor ε))} (hc : ∀ c ∈ chunks, ChunkValid c) {s : Sample ε}
    (hs : new key probability tableSize chunks = some s) : s.Ready := by
  have hne : chunks ≠ [] := by rintro rfl; simp [new] at hs
  rw [new_eq hne fun c h => (hc c h).1, Option.some.injEq] at hs
  subst hs
  exact ⟨⟨hc, fun c cs h => (hc c (by simp_all)).2.1⟩, hne⟩

/-- 一行の chunk 一つの sample は、一行ずつ渡せる。 -/
theorem ready_oneRow (key : UInt64) :
    (⟨key, 1, 1, 1, 1, [[stack [scalar (.elem ())]]], 0, false⟩ : Sample Unit).Ready :=
  ⟨⟨by simp [ChunkValid, chunkLength, dimSize0], fun c cs h => by cases h; exact Nat.one_pos⟩,
    by simp⟩

end Sample

namespace Queue

variable {α : Type}

theorem pop_some {q q' : Queue α} {x : α} (h : q.pop = some (some x, q')) :
    q.closed = false ∧ ∃ rest, q.items = x :: rest ∧ q' = { q with items := rest } := by
  unfold pop at h
  split at h
  · simp at h
  · rename_i hopen
    split at h
    · simp at h
    · rename_i y ys hys
      simp only [Option.some.injEq, Prod.mk.injEq] at h
      obtain ⟨rfl, rfl⟩ := h
      exact ⟨by simpa using hopen, ys, hys, rfl⟩

/-- 何も取り出さずに戻るのは、閉じた queue だけ。 -/
theorem pop_none {q q' : Queue α} (h : q.pop = some (none, q')) : q.closed = true ∧ q' = q := by
  unfold pop at h
  split at h
  · exact ⟨‹_›, (Prod.mk.inj (Option.some.inj h)).2.symm⟩
  · split at h <;> simp at h

theorem pop_closed {q : Queue α} (h : q.closed = true) : q.pop = some (none, q) := by
  simp [pop, h]

theorem push_true {q q' : Queue α} {x : α} (h : q.push x = some (true, q')) :
    q' = { q with items := q.items ++ [x] } := by
  unfold push at h
  split at h
  · simp at h
  · split at h
    · exact (Prod.mk.inj (Option.some.inj h)).2.symm
    · simp at h

theorem closed_of_push_true {q q' : Queue α} {x : α} (h : q.push x = some (true, q')) :
    q.closed = false := by
  unfold push at h
  split at h
  · simp at h
  · simp_all

end Queue

namespace ReplaySampler

variable {ε : Type}

/-- 今の sample がまだ渡していない行。 -/
def pending (r : ReplaySampler ε) : List (List (Tensor ε) × Bool) :=
  (r.activeSample.map Sample.deliveries).getD []

/-- 今の sample は、あれば行を取り出せる。 -/
def ActiveValid (r : ReplaySampler ε) : Prop := ∀ s, r.activeSample = some s → s.Valid

/-! ## 一回の呼び出し -/

theorem popNextSample_some {r r' : ReplaySampler ε} {status : Status} {s : Sample ε}
    (h : r.popNextSample = some (status, some s, r')) :
    status = .okStatus ∧ r.samples.closed = false ∧ ∃ rest, r.samples.items = s :: rest ∧
      r' = { r with samples := { r.samples with items := rest } } := by
  obtain ⟨⟨sample, q⟩, hpop, h⟩ := Option.map_eq_some'.1 h
  cases sample with
  | none => simp at h
  | some x =>
    simp only [Prod.mk.injEq, Option.some.injEq] at h
    obtain ⟨rfl, rfl, rfl⟩ := h
    obtain ⟨hopen, rest, hitems, rfl⟩ := Queue.pop_some hpop
    exact ⟨rfl, hopen, rest, hitems, rfl⟩

/-- 閉じた queue の `PopNextSample` は、閉じた理由を返す。 -/
theorem popNextSample_closed {r : ReplaySampler ε} (h : r.samples.closed = true) :
    r.popNextSample = some ((if r.returned = r.maxSamples then
        ⟨.outOfRange, "`max_samples` already returned."⟩
      else if r.closed then ⟨.cancelled, "Sampler has been cancelled."⟩ else r.streamStatus),
      none, r) := by
  simp [popNextSample, Queue.pop_closed h]

theorem popNextSample_none {r r' : ReplaySampler ε} {status : Status}
    (h : r.popNextSample = some (status, none, r')) : r' = r ∧ r.samples.closed = true := by
  obtain ⟨⟨sample, q⟩, hpop, h⟩ := Option.map_eq_some'.1 h
  cases sample with
  | none => exact ⟨(Prod.mk.inj (Prod.mk.inj h).2).2.symm, (Queue.pop_none hpop).1⟩
  | some x => simp at h

/-- `MaybeSampleNext` は何もしないか、今の sample を使い切ったときだけ queue の先頭を取り出す。 -/
theorem maybeSampleNext_cases {r r' : ReplaySampler ε} {status : Status}
    (h : r.maybeSampleNext = some (status, r')) :
    r' = r ∨ status = .okStatus ∧ r.samples.closed = false ∧
      (∀ a, r.activeSample = some a → a.isEndOfSample = true) ∧
      ∃ s rest, r.samples.items = s :: rest ∧
        r' = { r with samples := { r.samples with items := rest }, activeSample := some s } := by
  unfold maybeSampleNext at h
  split at h
  · exact .inl (Prod.mk.inj (Option.some.inj h)).2.symm
  · rename_i hact
    obtain ⟨⟨status', sample, r₁⟩, hpop, h⟩ := Option.map_eq_some'.1 h
    cases sample with
    | none => exact .inl ((Prod.mk.inj h).2.symm.trans (popNextSample_none hpop).1)
    | some s =>
      obtain ⟨rfl, hopen, rest, hitems, rfl⟩ := popNextSample_some hpop
      obtain ⟨rfl, rfl⟩ := Prod.mk.inj h
      exact .inr ⟨rfl, hopen, fun a ha => by simpa [ha] using hact, s, rest, hitems, rfl⟩

theorem takeTimestep_ok {r r' : ReplaySampler ε} {data : List (Tensor ε)} {eos : Bool}
    (h : r.takeTimestep = some (.ok (data, eos), r')) :
    ∃ status r₁ a a', r.maybeSampleNext = some (status, r₁) ∧ r₁.activeSample = some a ∧
      a.getNextTimestep = some (data, a') ∧ eos = a'.isEndOfSample ∧
      r' = { r₁ with activeSample := some a' } := by
  simp only [takeTimestep, bind, Option.bind_eq_some, pure] at h
  obtain ⟨⟨status, r₁⟩, hm, h⟩ := h
  split at h
  · simp at h
  · simp only [Option.some_bind, Option.bind_eq_some, Option.some.injEq, Prod.mk.injEq,
      Except.ok.injEq] at h
    obtain ⟨a, ha, ⟨d, a'⟩, hg, ⟨rfl, rfl⟩, rfl⟩ := h
    exact ⟨status, r₁, a, a', hm, ha, hg, rfl, rfl⟩

theorem getNextTimestep_ok {r r' : ReplaySampler ε} {data : List (Tensor ε)} {eos : Bool}
    (h : r.getNextTimestep = some (.ok (data, eos), r')) :
    ∃ r₁, r.takeTimestep = some (.ok (data, eos), r₁) ∧
      r' = if eos then r₁.countReturned else r₁ := by
  simp only [getNextTimestep, bind, Option.bind_eq_some, pure] at h
  obtain ⟨⟨result, r₁⟩, ht, h⟩ := h
  rcases result with status | ⟨d, _ | _⟩ <;> simp only [Option.some.injEq, Prod.mk.injEq,
    Except.ok.injEq, reduceCtorEq, false_and] at h
  all_goals obtain ⟨⟨rfl, rfl⟩, rfl⟩ := h; exact ⟨r₁, ht, by simp⟩

/-- 失敗した `GetNextTimestep` の前半は、状態を変えない。 -/
theorem takeTimestep_error {r r' : ReplaySampler ε} {status : Status}
    (h : r.takeTimestep = some (.error status, r')) : r' = r := by
  simp only [takeTimestep, bind, Option.bind_eq_some, pure] at h
  obtain ⟨⟨status₁, r₁⟩, hm, h⟩ := h
  split at h
  · rename_i hfail
    obtain ⟨-, rfl⟩ := Prod.mk.inj (Option.some.inj h)
    rcases maybeSampleNext_cases hm with rfl | ⟨rfl, -⟩
    · rfl
    · simp at hfail
  · simp [Option.bind_eq_some] at h

/-- 失敗した `GetNextTimestep` は、状態を変えない。 -/
theorem getNextTimestep_error {r r' : ReplaySampler ε} {status : Status}
    (h : r.getNextTimestep = some (.error status, r')) : r' = r := by
  simp only [getNextTimestep, bind, Option.bind_eq_some, pure] at h
  obtain ⟨⟨result, r₁⟩, ht, h⟩ := h
  rcases result with status' | ⟨d, _ | _⟩ <;> simp only [Option.some.injEq, Prod.mk.injEq,
    Except.error.injEq, reduceCtorEq, false_and] at h
  obtain ⟨rfl, rfl⟩ := h
  exact takeTimestep_error ht

theorem takeSample_ok {r r' : ReplaySampler ε} {data : List (Tensor ε)}
    (h : r.takeSample = some (.ok data, r')) :
    r.samples.closed = false ∧ ∃ s rest, r.samples.items = s :: rest ∧
      s.asBatchedTimesteps = some data ∧
      r' = { r with samples := { r.samples with items := rest } } := by
  simp only [takeSample, bind, Option.bind_eq_some, pure] at h
  obtain ⟨⟨status, sample, r₁⟩, hp, h⟩ := h
  split at h
  · simp at h
  · simp only [Option.some_bind, Option.bind_eq_some, Option.some.injEq, Prod.mk.injEq,
      Except.ok.injEq] at h
    obtain ⟨s, rfl, d, hd, rfl, rfl⟩ := h
    obtain ⟨-, hopen, rest, hitems, rfl⟩ := popNextSample_some hp
    exact ⟨hopen, s, rest, hitems, hd, rfl⟩

/-- 失敗した `GetNextSample` の前半は、状態を変えない。 -/
theorem takeSample_error {r r' : ReplaySampler ε} {status : Status}
    (h : r.takeSample = some (.error status, r')) : r' = r := by
  simp only [takeSample, bind, Option.bind_eq_some, pure] at h
  obtain ⟨⟨status₁, sample, r₁⟩, hp, h⟩ := h
  split at h
  · rename_i hfail
    obtain ⟨-, rfl⟩ := Prod.mk.inj (Option.some.inj h)
    cases sample with
    | none => exact (popNextSample_none hp).1
    | some s => simp [(popNextSample_some hp).1] at hfail
  · simp [Option.bind_eq_some] at h

@[simp] theorem countReturned_returned (r : ReplaySampler ε) :
    r.countReturned.returned = r.returned + 1 := rfl

@[simp] theorem countReturned_activeSample (r : ReplaySampler ε) :
    r.countReturned.activeSample = r.activeSample := rfl

@[simp] theorem countReturned_maxSamples (r : ReplaySampler ε) :
    r.countReturned.maxSamples = r.maxSamples := rfl

@[simp] theorem countReturned_items (r : ReplaySampler ε) :
    r.countReturned.samples.items = r.samples.items := by
  simp only [countReturned]
  split <;> rfl

theorem countReturned_fields (b : Bool) (r : ReplaySampler ε) :
    (if b then r.countReturned else r).samples.items = r.samples.items ∧
    (if b then r.countReturned else r).activeSample = r.activeSample ∧
    (if b then r.countReturned else r).returned = r.returned + (if b then 1 else 0) ∧
    (if b then r.countReturned else r).maxSamples = r.maxSamples := by
  cases b <;> simp

/-- **一回の呼び出し**：`GetNextTimestep` は、今の sample を使い切っていたときだけ queue の先頭を
取り出し、渡す列の先頭を返す。sample の最後の行を渡したときだけ `returned_` が一つ増える。 -/
theorem getNextTimestep_step {r r' : ReplaySampler ε} {out : List (Tensor ε) × Bool}
    (hr : r.ActiveValid) (hq : ∀ s ∈ r.samples.items, s.Ready)
    (h : r.getNextTimestep = some (.ok out, r')) :
    ∃ popped : List (Sample ε), r.samples.items = popped ++ r'.samples.items ∧
      popped.length ≤ 1 ∧ (popped ≠ [] → ∀ a, r.activeSample = some a → a.isEndOfSample = true) ∧
      r.pending ++ popped.flatMap Sample.deliveries = out :: r'.pending ∧
      r'.returned = r.returned + (if out.2 then 1 else 0) ∧ r'.maxSamples = r.maxSamples ∧
      r'.ActiveValid := by
  obtain ⟨data, eos⟩ := out
  obtain ⟨r₂, ht, rfl⟩ := getNextTimestep_ok h
  obtain ⟨status, r₁, a, a', hm, ha, hg, rfl, rfl⟩ := takeTimestep_ok ht
  obtain ⟨hitems, hact, hret, hmax⟩ := countReturned_fields a'.isEndOfSample
    { r₁ with activeSample := some a' }
  simp only [pending, ActiveValid, hitems, hact, hret, hmax]
  rcases maybeSampleNext_cases hm with rfl | ⟨-, -, hend, s, rest, hrest, rfl⟩
  · obtain ⟨hdel, ha'⟩ := Sample.getNextTimestep_deliveries (hr a ha) hg
    refine ⟨[], by simp, by simp, by simp, ?_, rfl, rfl, fun _ h => ?_⟩
    · simp [ha, hdel]
    · cases h; exact ha'
  · cases ha
    obtain ⟨hdel, ha'⟩ := Sample.getNextTimestep_deliveries (hq a (by simp [hrest])).valid hg
    have hpend : (r.activeSample.map Sample.deliveries).getD [] = [] := by
      cases hra : r.activeSample with
      | none => rfl
      | some b => simp [Sample.deliveries_of_isEndOfSample (hr b hra) (hend b hra)]
    refine ⟨[a], by simp [hrest], by simp, fun _ => hend, ?_, rfl, rfl, fun _ h => ?_⟩
    · simp [hpend, hdel]
    · cases h; exact ha'

/-! ## 呼び出しの列 -/

/--
`GetNextTimestep` の呼び出しの列と、その間に他の thread がすること。
添字は、worker が queue に入れた sample の列と、呼び出しの結果の列。

* `push` — worker の `Push`。
* `other` — `requested_`・`stream_status_`・`closed_` を変えること、queue を閉じること。
  今の sample、`returned_`、queue の中身は変えない。
* `call` — OK を返した `GetNextTimestep`。
-/
inductive TimestepRun : ReplaySampler ε → List (Sample ε) → List (List (Tensor ε) × Bool) →
    ReplaySampler ε → Prop
  | nil (r : ReplaySampler ε) : TimestepRun r [] [] r
  | push {r r' : ReplaySampler ε} {q : Queue (Sample ε)} {s : Sample ε} {pushed outs} :
      r.samples.push s = some (true, q) → TimestepRun { r with samples := q } pushed outs r' →
      TimestepRun r (s :: pushed) outs r'
  | other {r r₁ r' : ReplaySampler ε} {pushed outs} :
      r₁.activeSample = r.activeSample → r₁.returned = r.returned →
      r₁.maxSamples = r.maxSamples → r₁.samples.items = r.samples.items →
      TimestepRun r₁ pushed outs r' → TimestepRun r pushed outs r'
  | call {r r₁ r' : ReplaySampler ε} {out pushed outs} :
      r.getNextTimestep = some (.ok out, r₁) → TimestepRun r₁ pushed outs r' →
      TimestepRun r pushed (out :: outs) r'

/-- **呼び出しの列**：queue は先に入れた sample から取り出され、返した行と今の sample に残る行を
つなぐと、初めに残っていた行と取り出した sample の行をつないだものになる。 -/
theorem timestepRun_deliveries {r r' : ReplaySampler ε} {pushed : List (Sample ε)}
    {outs : List (List (Tensor ε) × Bool)} (h : TimestepRun r pushed outs r')
    (hr : r.ActiveValid) (hq : ∀ s ∈ r.samples.items ++ pushed, s.Ready) :
    ∃ popped, r.samples.items ++ pushed = popped ++ r'.samples.items ∧
      outs ++ r'.pending = r.pending ++ popped.flatMap Sample.deliveries ∧
      r'.returned = r.returned + outs.countP (·.2) ∧ r'.ActiveValid := by
  induction h with
  | nil r => exact ⟨[], by simp, by simp, by simp, hr⟩
  | push hpush _ ih =>
    rw [Queue.push_true hpush] at ih
    obtain ⟨popped, hfifo, hout, hret, hr'⟩ := ih hr (by simpa using hq)
    exact ⟨popped, by simpa using hfifo, hout, hret, hr'⟩
  | @other r r₁ r' pushed outs hact hret hmax hitems _ ih =>
    obtain ⟨popped, hfifo, hout, hret', hr'⟩ :=
      ih (fun s h => hr s (hact ▸ h)) (by rwa [hitems])
    have hpend : r₁.pending = r.pending := by simp only [pending, hact]
    exact ⟨popped, by rwa [← hitems], hpend ▸ hout, by rw [hret', hret], hr'⟩
  | call hcall _ ih =>
    obtain ⟨p₁, hfifo₁, -, -, hout₁, hret₁, -, hr₁⟩ :=
      getNextTimestep_step hr (fun s h => hq s (List.mem_append_left _ h)) hcall
    obtain ⟨p₂, hfifo₂, hout₂, hret₂, hr'⟩ := ih hr₁ fun s h => hq s (by
      rw [hfifo₁, List.append_assoc]; exact List.mem_append_right _ h)
    refine ⟨p₁ ++ p₂, by rw [hfifo₁, List.append_assoc, hfifo₂, List.append_assoc], ?_, ?_, hr'⟩
    · rw [List.flatMap_append, ← List.append_assoc, hout₁, List.cons_append, List.cons_append,
        hout₂]
    · rw [hret₂, hret₁, List.countP_cons]
      split <;> push_cast <;> ring

/-- **`GetNextTimestep` の列**：一回の呼び出しは、今の sample を使い切っていたときだけ queue の
先頭を取り出し、sample の最後の行を渡したときだけ `returned_` を一つ増やす。呼び出しの列では、
返した行は取り出した sample の行を取り出した順に並べたもので、抜けも重なりもなく、
`*end_of_sequence` は各 sample の最後の行でだけ真である。 -/
theorem getNextTimestep_calls :
    (∀ {r r' : ReplaySampler ε} {out : List (Tensor ε) × Bool}, r.ActiveValid →
      (∀ s ∈ r.samples.items, s.Ready) → r.getNextTimestep = some (.ok out, r') →
      ∃ popped : List (Sample ε), popped.length ≤ 1 ∧
        r.samples.items = popped ++ r'.samples.items ∧
        (popped ≠ [] → ∀ a, r.activeSample = some a → a.isEndOfSample = true) ∧
        r'.returned = r.returned + (if out.2 then 1 else 0)) ∧
    (∀ {r r' : ReplaySampler ε} {pushed : List (Sample ε)} {outs : List (List (Tensor ε) × Bool)},
      TimestepRun r pushed outs r' → r.ActiveValid → (∀ s ∈ r.samples.items ++ pushed, s.Ready) →
      ∃ popped, r.samples.items ++ pushed = popped ++ r'.samples.items ∧
        outs ++ r'.pending = r.pending ++ popped.flatMap Sample.deliveries ∧
        r'.returned = r.returned + outs.countP (·.2)) := by
  refine ⟨fun hr hq h => ?_, fun h hr hq => ?_⟩
  · obtain ⟨popped, hfifo, hlen, hpop, -, hret, -⟩ := getNextTimestep_step hr hq h
    exact ⟨popped, hlen, hfifo, hpop, hret⟩
  · obtain ⟨popped, hfifo, hout, hret, -⟩ := timestepRun_deliveries h hr hq
    exact ⟨popped, hfifo, hout, hret⟩

/-- queue の一行の sample を渡し、worker がもう一つを入れ、使い切った sample から次の sample へ
移って、その一行を渡す。 -/
theorem getNextTimestep_calls_handoff :
    let s₁ : Sample Unit := ⟨0, 1, 1, 1, 1, [[stack [scalar (.elem ())]]], 0, false⟩
    let s₂ : Sample Unit := ⟨1, 1, 1, 1, 1, [[stack [scalar (.elem ())]]], 0, false⟩
    let r₀ : ReplaySampler Unit := { init 2 1 1 with samples := ⟨[s₁], 1, false⟩ }
    ∃ outs r', TimestepRun r₀ [s₂] outs r' ∧ outs.length = 2 ∧ r₀.ActiveValid ∧
      (∀ s ∈ r₀.samples.items ++ [s₂], s.Ready) ∧
      ∃ popped, r₀.samples.items ++ [s₂] = popped ++ r'.samples.items ∧
        outs ++ r'.pending = r₀.pending ++ popped.flatMap Sample.deliveries ∧
        r'.returned = r₀.returned + outs.countP (·.2) := by
  intro s₁ s₂ r₀
  have hrun : TimestepRun r₀ [s₂] _ _ := .call rfl (.push rfl (.call rfl (.nil _)))
  have hr : r₀.ActiveValid := fun s h => by cases h
  have hq : ∀ s ∈ r₀.samples.items ++ [s₂], s.Ready := by
    simp only [r₀, List.singleton_append, List.mem_cons, List.mem_singleton, forall_eq_or_imp,
      forall_eq, List.not_mem_nil, false_imp_iff, implies_true, and_true]
    exact ⟨Sample.ready_oneRow 0, Sample.ready_oneRow 1⟩
  exact ⟨_, _, hrun, rfl, hr, hq, getNextTimestep_calls.2 hrun hr hq⟩

/-! ## `GetNextSample` -/

theorem getNextSample_ok {r r' : ReplaySampler ε} {data : List (Tensor ε)}
    (h : r.getNextSample = some (.ok data, r')) :
    ∃ r₁, r.takeSample = some (.ok data, r₁) ∧ r' = r₁.countReturned := by
  simp only [getNextSample, bind, Option.bind_eq_some, pure] at h
  obtain ⟨⟨result, r₁⟩, ht, h⟩ := h
  rcases result with status | d <;> simp only [Option.some.injEq, Prod.mk.injEq,
    Except.ok.injEq, reduceCtorEq, false_and] at h
  obtain ⟨rfl, rfl⟩ := h
  exact ⟨r₁, ht, rfl⟩

/-- 失敗した `GetNextSample` は、状態を変えない。 -/
theorem getNextSample_error {r r' : ReplaySampler ε} {status : Status}
    (h : r.getNextSample = some (.error status, r')) : r' = r := by
  simp only [getNextSample, bind, Option.bind_eq_some, pure] at h
  obtain ⟨⟨result, r₁⟩, ht, h⟩ := h
  rcases result with status' | d <;> simp only [Option.some.injEq, Prod.mk.injEq,
    Except.error.injEq, reduceCtorEq, false_and] at h
  obtain ⟨rfl, rfl⟩ := h
  exact takeSample_error ht

/-- **一回の呼び出し**：OK を返した `GetNextSample` は queue の先頭を取り出し、それをまとめた
tensor を返して、`returned_` を一つ増やす。今の sample には触らない。 -/
theorem getNextSample_step {r r' : ReplaySampler ε} {data : List (Tensor ε)}
    (h : r.getNextSample = some (.ok data, r')) :
    ∃ s, r.samples.items = s :: r'.samples.items ∧ s.asBatchedTimesteps = some data ∧
      r'.returned = r.returned + 1 ∧ r'.activeSample = r.activeSample := by
  obtain ⟨r₁, ht, rfl⟩ := getNextSample_ok h
  obtain ⟨-, s, rest, hitems, hd, rfl⟩ := takeSample_ok ht
  exact ⟨s, by simp [hitems], hd, by simp, rfl⟩

/--
`GetNextSample` の呼び出しの列と、その間に他の thread がすること。

* `push` — worker の `Push`。
* `other` — `returned_` と queue の中身を変えないこと。
* `call` — `GetNextSample`。結果は OK でも失敗でもよい。
-/
inductive SampleRun : ReplaySampler ε → List (Sample ε) → List (Except Status (List (Tensor ε))) →
    ReplaySampler ε → Prop
  | nil (r : ReplaySampler ε) : SampleRun r [] [] r
  | push {r r' : ReplaySampler ε} {q : Queue (Sample ε)} {s : Sample ε} {pushed outs} :
      r.samples.push s = some (true, q) → SampleRun { r with samples := q } pushed outs r' →
      SampleRun r (s :: pushed) outs r'
  | other {r r₁ r' : ReplaySampler ε} {pushed outs} :
      r₁.returned = r.returned → r₁.samples.items = r.samples.items →
      SampleRun r₁ pushed outs r' → SampleRun r pushed outs r'
  | call {r r₁ r' : ReplaySampler ε} {out pushed outs} :
      r.getNextSample = some (out, r₁) → SampleRun r₁ pushed outs r' →
      SampleRun r pushed (out :: outs) r'

/-- `SampleRun` の上での帰納法：取り出した sample の列を一歩ずつ伸ばす。 -/
theorem sampleRun_popped {r r' : ReplaySampler ε} {pushed : List (Sample ε)}
    {outs : List (Except Status (List (Tensor ε)))} (h : SampleRun r pushed outs r') :
    ∃ popped, r.samples.items ++ pushed = popped ++ r'.samples.items ∧
      popped.mapM Sample.asBatchedTimesteps = some (outs.filterMap Except.toOption) ∧
      r'.returned = r.returned + popped.length := by
  induction h with
  | nil r => exact ⟨[], by simp, rfl, by simp⟩
  | push hpush _ ih =>
    rw [Queue.push_true hpush] at ih
    obtain ⟨popped, hfifo, hmap, hret⟩ := ih
    exact ⟨popped, by simpa using hfifo, hmap, hret⟩
  | other hret hitems _ ih =>
    obtain ⟨popped, hfifo, hmap, hret'⟩ := ih
    exact ⟨popped, by rwa [← hitems], hmap, by rw [hret', hret]⟩
  | @call r r₁ r' out pushed outs hcall _ ih =>
    obtain ⟨popped, hfifo, hmap, hret⟩ := ih
    rcases out with status | data
    · cases getNextSample_error hcall
      exact ⟨popped, hfifo, by simpa [Except.toOption] using hmap, hret⟩
    · obtain ⟨s, hitems, hd, hret₁, -⟩ := getNextSample_step hcall
      refine ⟨s :: popped, by rw [hitems, List.cons_append, hfifo, List.cons_append], ?_, ?_⟩
      · rw [List.mapM_cons, hd, hmap]
        rfl
      · rw [hret, hret₁, List.length_cons]
        push_cast
        ring

/-- **`GetNextSample` の列**：OK を返した呼び出しは、queue に入った順に sample を一つずつ取り出して
まとめたものを返し、抜けも重なりもない。`returned_` は取り出した数だけ増える。 -/
theorem getNextSample_fifo {r r' : ReplaySampler ε} {pushed : List (Sample ε)}
    {outs : List (Except Status (List (Tensor ε)))} (h : SampleRun r pushed outs r') :
    ∃ popped, r.samples.items ++ pushed = popped ++ r'.samples.items ∧
      popped.mapM Sample.asBatchedTimesteps = some (outs.filterMap Except.toOption) ∧
      r'.returned = r.returned + popped.length :=
  sampleRun_popped h

/-- queue の sample を `GetNextSample` で受け取り、worker がもう一つを入れ、それも受け取る。 -/
theorem getNextSample_fifo_two :
    let s₁ : Sample Unit := ⟨0, 1, 1, 1, 1, [[stack [scalar (.elem ())]]], 0, false⟩
    let s₂ : Sample Unit := ⟨1, 1, 1, 1, 1, [[stack [scalar (.elem ())]]], 0, false⟩
    let r₀ : ReplaySampler Unit := { init 2 1 1 with samples := ⟨[s₁], 1, false⟩ }
    ∃ outs r', SampleRun r₀ [s₂] outs r' ∧ outs.length = 2 ∧
      ∃ popped, r₀.samples.items ++ [s₂] = popped ++ r'.samples.items ∧
        popped.mapM Sample.asBatchedTimesteps = some (outs.filterMap Except.toOption) ∧
        r'.returned = r₀.returned + popped.length := by
  intro s₁ s₂ r₀
  have hrun : SampleRun r₀ [s₂] _ _ := .call rfl (.push rfl (.call rfl (.nil _)))
  exact ⟨_, _, hrun, rfl, getNextSample_fifo hrun⟩

end ReplaySampler

end Reverb
