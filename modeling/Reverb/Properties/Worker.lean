import Reverb.Worker

/-!
# `OpenStreamAndFetch` の request と数

一本の stream の上で worker が外に残すこと（書いた request と、queue に入れた sample）は、
request ごとの組 `rounds` に分かれる。

* どの request も `1` 以上 `samples_per_request_` 以下の sample を頼む
* 最後の request の前の request は、頼んだ数の sample をすべて queue に入れてから次を書いている
* 頼んだ数の和は `num_samples` を超えない
* 返す数は queue に入れた sample の数で、`num_samples` を超えない

ループを抜けたときは `num_samples_returned = num_samples` なので、最後の `REVERB_CHECK_EQ`
は落ちない。途中で戻るのは三つの場合で、どれも戻ったところの状態から分かる
（`requestLoop_rounds`）。

* `Write` が false を返した：最後の request の sample はすべて入っていて、次の `Write` の答えが true でない
* `Read` が false を返した：stream の残りでは、次の sample を読み終えられない
* `Push` が断られた：`CANCELLED` を返す

前の二つでは `Finish()` の status をそのまま返すので、stream が OK で終われば、OK と足りない数の
組が返る（`Reverb.Properties.Stream` の `openStreamAndFetch_finish_ok`）。
-/

namespace Reverb

variable {P ε : Type} (codec : Codec P ε)

/-- request と、その request のために queue に入れた sample を順に並べたもの。 -/
def roundsTrace (rounds : List (SampleStreamRequest × List (Sample ε))) : List (Event ε) :=
  rounds.flatMap fun q => .write q.1 :: q.2.map .push

@[simp] theorem roundsTrace_nil :
    roundsTrace ([] : List (SampleStreamRequest × List (Sample ε))) = [] :=
  rfl

@[simp] theorem roundsTrace_cons (q : SampleStreamRequest × List (Sample ε)) rounds :
    roundsTrace (q :: rounds) = .write q.1 :: q.2.map .push ++ roundsTrace rounds := rfl

/-- `requestLoop` が `st` を `st'` まで進めたときの request の組 `rounds`。
request ごとに `Write` の答えを一つ使う。 -/
structure Rounds (w : Worker) (numSamples : Int) (st st' : Fetch P ε)
    (rounds : List (SampleStreamRequest × List (Sample ε))) : Prop where
  trace : st'.trace = st.trace ++ roundsTrace rounds
  size : ∀ q ∈ rounds, 1 ≤ q.1.numSamples ∧ q.1.numSamples ≤ w.samplesPerRequest
  full : ∀ q ∈ rounds.dropLast, q.2.length = q.1.numSamples
  last : ∀ q ∈ rounds.getLast?, q.2.length ≤ q.1.numSamples
  asked : st.numSamplesReturned + (rounds.map (·.1.numSamples)).sum ≤ numSamples
  returned : st'.numSamplesReturned = st.numSamplesReturned + (rounds.map (·.2.length)).sum
  writes : st.env.writes = List.replicate rounds.length true ++ st'.env.writes

/-- `for` は、回数以下の sample を queue に入れる。抜けたならちょうど回数だけ入れている。
途中で戻るのは、`Read` が false を返したとき（`Finish()` の status）か、`Push` が断られたとき。 -/
theorem fetchLoop_pushes {n : Nat} {st st' : Fetch P ε} {r : Option Status}
    (h : fetchLoop codec n st = some (st', r)) :
    ∃ samples : List (Sample ε), st'.trace = st.trace ++ samples.map .push ∧
      st'.numSamplesReturned = st.numSamplesReturned + samples.length ∧
      samples.length ≤ n ∧ (r = none → samples.length = n) ∧ st'.env.finish = st.env.finish ∧
      st'.env.writes = st.env.writes ∧
      ∀ status, r = some status →
        status = st.env.finish ∧ readResponses codec [] st'.env.reads = some .failed ∨
          status = closeCalledStatus := by
  induction n generalizing st with
  | zero => cases h; exact ⟨[], by simp, by simp, le_refl _, fun _ => rfl, rfl, rfl, by simp⟩
  | succ n ih =>
    unfold fetchLoop at h
    split at h
    · cases h
    · rename_i st1 status h1
      cases h
      obtain ⟨rfl, hs⟩ := fetchOne_ret codec h1
      exact ⟨[], by simp, by simp, by simp, by simp, rfl, rfl, fun _ h => by cases h; exact hs⟩
    · rename_i st1 h1
      obtain ⟨-, sample, -, ht, hn, hf, hw⟩ := fetchOne_next codec h1
      obtain ⟨samples, ht', hn', hle, hfull, hf', hw', hs⟩ := ih h
      refine ⟨sample :: samples, by simp [ht', ht], by simp [hn', hn]; omega, by simp; omega,
        fun hr => by simp [hfull hr], hf'.trans hf, hw'.trans hw, fun status hr => ?_⟩
      rw [← hf]; exact hs status hr

namespace Rounds

variable {w : Worker} {numSamples : Int}

theorem nil {st : Fetch P ε} (hle : st.numSamplesReturned ≤ numSamples) :
    Rounds w numSamples st st [] :=
  ⟨by simp, by simp, by simp, by simp, by simpa, by simp, by simp⟩

/-- 途中で戻った最後の request。頼んだ数以下の sample を入れている。 -/
theorem single {st st' : Fetch P ε} {q : SampleStreamRequest × List (Sample ε)}
    (hq : 1 ≤ q.1.numSamples ∧ q.1.numSamples ≤ w.samplesPerRequest)
    (hlen : q.2.length ≤ q.1.numSamples)
    (hasked : st.numSamplesReturned + q.1.numSamples ≤ numSamples)
    (htrace : st'.trace = st.trace ++ .write q.1 :: q.2.map .push)
    (hret : st'.numSamplesReturned = st.numSamplesReturned + q.2.length)
    (hw : st.env.writes = true :: st'.env.writes) :
    Rounds w numSamples st st' [q] :=
  ⟨by simpa using htrace, by simpa using hq, by simp, by simpa using hlen, by simpa using hasked,
    by simpa using hret, by simpa using hw⟩

/-- 頼んだ数をすべて入れた request を前に足す。 -/
theorem cons {st st₁ st' : Fetch P ε} {q : SampleStreamRequest × List (Sample ε)}
    {rounds : List (SampleStreamRequest × List (Sample ε))}
    (hq : 1 ≤ q.1.numSamples ∧ q.1.numSamples ≤ w.samplesPerRequest)
    (hfull : q.2.length = q.1.numSamples)
    (htrace : st₁.trace = st.trace ++ .write q.1 :: q.2.map .push)
    (hret : st₁.numSamplesReturned = st.numSamplesReturned + q.2.length)
    (hw : st.env.writes = true :: st₁.env.writes)
    (h : Rounds w numSamples st₁ st' rounds) : Rounds w numSamples st st' (q :: rounds) where
  trace := by rw [h.trace, htrace]; simp
  size := by
    simp only [List.mem_cons, forall_eq_or_imp]
    exact ⟨hq, h.size⟩
  full := by
    cases rounds with
    | nil => simp
    | cons q' rounds =>
      simp only [List.dropLast_cons₂, List.mem_cons, forall_eq_or_imp]
      exact ⟨hfull, h.full⟩
  last := by
    cases rounds with
    | nil => simp [hfull]
    | cons q' rounds => simpa using h.last
  asked := by have := h.asked; simp only [List.map_cons, List.sum_cons]; omega
  returned := by rw [h.returned, hret]; simp only [List.map_cons, List.sum_cons]; push_cast; omega
  writes := by rw [hw, h.writes]; rfl

/-- どの request も、頼んだ数以下の sample しか入れていない。 -/
theorem pushed_le {st st' : Fetch P ε} {rounds : List (SampleStreamRequest × List (Sample ε))}
    (h : Rounds w numSamples st st' rounds) :
    ∀ q ∈ rounds, (q.2.length : Int) ≤ q.1.numSamples := by
  intro q hq
  have hne : rounds ≠ [] := List.ne_nil_of_mem hq
  rw [← List.dropLast_concat_getLast hne, List.mem_append, List.mem_singleton] at hq
  rcases hq with hq | rfl
  · exact (h.full q hq).le
  · exact h.last _ (by simp [List.getLast?_eq_getLast _ hne])

/-- 入れた数の和は、頼んだ数の和を超えない。 -/
theorem pushed_sum_le {st st' : Fetch P ε} {rounds : List (SampleStreamRequest × List (Sample ε))}
    (h : Rounds w numSamples st st' rounds) :
    (((rounds.map (·.2.length)).sum : Nat) : Int) ≤ (rounds.map (·.1.numSamples)).sum := by
  rw [Nat.cast_list_sum, List.map_map]
  exact List.sum_le_sum h.pushed_le

end Rounds

theorem requestSize_bounds {w : Worker} {numSamples r : Int} (h : r < numSamples) :
    1 ≤ requestSize w numSamples r ∧ requestSize w numSamples r ≤ w.samplesPerRequest ∧
      r + requestSize w numSamples r ≤ numSamples := by
  have := w.samplesPerRequest_pos
  simp only [requestSize]; omega

/--
`requestLoop` の結果は request の組に分かれる。ループを抜けたなら数は `num_samples` に届いている。
途中で戻ったなら、status は `Finish()` のものか `CANCELLED` で、`Finish()` のものなら、最後の request の
sample をすべて入れた後の `Write` が false を返したか、`Read` が false を返している。
-/
theorem requestLoop_rounds {w : Worker} {numSamples : Int} {st st' : Fetch P ε}
    {r : Option Status} (hle : st.numSamplesReturned ≤ numSamples)
    (h : requestLoop codec w numSamples st = some (st', r)) :
    ∃ rounds, Rounds w numSamples st st' rounds ∧ st'.env.finish = st.env.finish ∧
      (r = none → st'.numSamplesReturned = numSamples) ∧
      ∀ status, r = some status →
        status = st.env.finish ∧
            ((∀ q ∈ rounds.getLast?, q.2.length = q.1.numSamples) ∧
                st'.env.writes.head? ≠ some true ∨
              readResponses codec [] st'.env.reads = some .failed) ∨
          status = closeCalledStatus := by
  generalize hrem : (numSamples - st.numSamplesReturned).toNat = rem
  induction rem using Nat.strong_induction_on generalizing st with
  | _ rem ih =>
    by_cases hlt : st.numSamplesReturned < numSamples
    swap
    · rw [requestLoop_done codec hlt] at h
      cases h
      exact ⟨[], Rounds.nil hle, rfl, fun _ => by omega, by simp⟩
    obtain ⟨h1, h2, h3⟩ := requestSize_bounds (w := w) hlt
    by_cases hw₀ : st.env.writes.head? = some true
    swap
    · rw [requestLoop_noWrite codec hlt hw₀] at h
      cases h
      exact ⟨[], Rounds.nil hle, rfl, by simp, fun _ h => by cases h; exact .inl ⟨rfl, .inl ⟨by simp, hw₀⟩⟩⟩
    obtain ⟨writes, hws⟩ := List.head?_eq_some_iff.1 hw₀
    rw [requestLoop_write codec hlt hws] at h
    cases hf : fetchLoop codec (requestSize w numSamples st.numSamplesReturned).toNat
      { st with env := { st.env with writes },
                trace := st.trace ++ [.write ⟨w.table, requestSize w numSamples st.numSamplesReturned⟩] } with
    | none => simp [hf] at h
    | some p =>
      obtain ⟨st'', o⟩ := p
      rw [hf, Option.some_bind] at h
      dsimp only at h
      obtain ⟨samples, ht, hn, hlen, hfull, hfin, hwr, hs⟩ := fetchLoop_pushes codec hf
      have hw : st.env.writes = true :: st''.env.writes := by rw [hws, hwr]
      cases o with
      | some status =>
        cases h
        refine ⟨[(⟨w.table, requestSize w numSamples st.numSamplesReturned⟩, samples)],
          Rounds.single ⟨h1, h2⟩ (by simp; omega) h3 (by simpa using ht) hn hw, hfin, by simp,
          fun status' hr => ?_⟩
        cases hr
        rcases hs _ rfl with ⟨hst, hread⟩ | hc
        · exact .inl ⟨hst, .inr hread⟩
        · exact .inr hc
      | none =>
        have hfull : (samples.length : Int) = requestSize w numSamples st.numSamplesReturned := by
          have := hfull rfl
          omega
        simp only at hn
        obtain ⟨rounds, hr, hfin', hnone, hs'⟩ := ih _ (by omega) (by omega) h rfl
        refine ⟨(⟨w.table, requestSize w numSamples st.numSamplesReturned⟩, samples) :: rounds,
          Rounds.cons ⟨h1, h2⟩ hfull (by simpa using ht) hn hw hr,
          hfin'.trans hfin, hnone, fun status hr' => ?_⟩
        rcases hs' status hr' with ⟨hst, ⟨hlast, hw'⟩ | hread⟩ | hc
        · refine .inl ⟨hst.trans hfin, .inl ⟨?_, hw'⟩⟩
          cases rounds with
          | nil => simpa using hfull
          | cons q rounds => simpa using hlast
        · exact .inl ⟨hst.trans hfin, .inr hread⟩
        · exact .inr hc

/-- `OpenStreamAndFetch` が値を返したなら、書いたことと入れたことは request の組に分かれる。
OK と足りない数を返すのは、`Finish()` の status を返すときで、`Write` の答えを request の数だけ
使った後の答えが true でないか、ループが `Read` の失敗で戻ったときである。 -/
theorem openStreamAndFetch_some (w : Worker) (env : Env P) {numSamples : Int}
    (hns : 0 ≤ numSamples) {trace : List (Event ε)} {count : Int} {status : Status}
    (h : openStreamAndFetch codec w env numSamples = some (trace, count, status)) :
    ∃ rounds : List (SampleStreamRequest × List (Sample ε)), trace = roundsTrace rounds ∧
      (∀ q ∈ rounds, 1 ≤ q.1.numSamples ∧ q.1.numSamples ≤ w.samplesPerRequest) ∧
      (∀ q ∈ rounds.dropLast, q.2.length = q.1.numSamples) ∧
      (∀ q ∈ rounds.getLast?, q.2.length ≤ q.1.numSamples) ∧
      (rounds.map (·.1.numSamples)).sum ≤ numSamples ∧
      count = (rounds.map (·.2.length)).sum ∧ count ≤ numSamples ∧
      (status.ok → count = numSamples ∨ status = env.finish ∧
        ((∀ q ∈ rounds.getLast?, q.2.length = q.1.numSamples) ∧
            (env.writes.drop rounds.length).head? ≠ some true ∨
          ∃ st, requestLoop codec w numSamples ⟨env, [], 0⟩ = some (st, some status) ∧
            st.trace = trace ∧ readResponses codec [] st.env.reads = some .failed)) := by
  unfold openStreamAndFetch at h
  split at h
  · cases h
    exact ⟨[], rfl, by simp, by simp, by simp, by simpa, rfl, hns, by simp [closeCalledStatus,
      Status.ok]⟩
  · cases hr : requestLoop codec w numSamples ⟨env, [], 0⟩ with
    | none => simp [hr] at h
    | some p =>
      obtain ⟨st, o⟩ := p
      obtain ⟨rounds, hR, -, hnone, hs⟩ := requestLoop_rounds codec hns hr
      have hsum := hR.pushed_sum_le
      have hasked := hR.asked
      have hret := hR.returned
      dsimp only at hasked hret
      simp only [hr, Option.bind_eq_bind, Option.some_bind] at h
      refine ⟨rounds, ?_⟩
      cases o with
      | some status' =>
        simp only [Option.some.injEq, Prod.mk.injEq] at h
        obtain ⟨rfl, rfl, rfl⟩ := h
        refine ⟨by simpa using hR.trace, hR.size, hR.full, hR.last, by omega,
          by simpa using hret, by omega, fun hok => .inr ?_⟩
        rcases hs status' rfl with ⟨hst, ⟨hlast, hw⟩ | hread⟩ | hc
        · refine ⟨hst, .inl ⟨hlast, ?_⟩⟩
          rw [hR.writes]
          simpa [List.drop_append_eq_append_drop] using hw
        · exact ⟨hst, .inr ⟨st, rfl, rfl, hread⟩⟩
        · simp [hc, closeCalledStatus, Status.ok] at hok
      | none =>
        have := hnone rfl
        simp only [this, ↓reduceIte, Option.some.injEq, Prod.mk.injEq] at h
        obtain ⟨rfl, rfl, rfl⟩ := h
        exact ⟨by simpa using hR.trace, hR.size, hR.full, hR.last, by omega,
          by omega, by omega, fun _ => .inl rfl⟩

end Reverb
