import Reverb.AsSample

/-!
# `ReplaySampler::Worker::OpenStreamAndFetch`

一つの worker が一本の stream を開き、`num_samples` 個の sample を queue に入れる。
request は `samples_per_request_` 個ずつ書き、その request の sample をすべて読んで
queue に入れてから次の request を書く。

stream と queue は外の世界で、その答え（`Write`・`Read`・`Push` の成否と `Finish` の status）は
`Env` にまとめて与える。どの答えの列も起こりうるものとして扱う。

## 停止性

* `readResponses` — 読む stream の残りが減る
* `fetchLoop` — 残りの回数が減る
* `requestLoop` — `num_samples - num_samples_returned` が減る。一周ごとに
  `num_samples_returned` が request の `num_samples`（1 以上）だけ増えるか、関数から戻る
  （`fetchLoop_numSamplesReturned`）。

ループの結果の `Option Status` は、`some` なら途中の `return` とその status、
`none` ならループを抜けて先へ進んだことを表す。全体の `none` は `CHECK` か未定義動作である。
-/

namespace Reverb

variable {P ε : Type} (codec : Codec P ε)

/--
`ReplaySampler::Worker`。

`samples_per_request_` は `ReplaySampler` の constructor が
`max_in_flight_samples_per_worker > 0` を `CHECK` してから渡す値なので、正である。
`closed` は `Cancel` が立てる `closed_`。
-/
structure Worker where
  table : String
  samplesPerRequest : Int
  samplesPerRequest_pos : 0 < samplesPerRequest
  closed : Bool

/-- `OpenStreamAndFetch` から見た stream と queue。答えを呼ばれた順に並べる。
答えが尽きたら `Write`・`Read`・`Push` は false を返す（stream が切れた、queue が閉じた）。 -/
structure Env (P : Type) where
  writes : List Bool
  reads : List (SampleStreamResponse P)
  pushes : List Bool
  finish : Status

/-- worker が外に残すこと：書いた request と、queue に入った sample。 -/
inductive Event (ε : Type) where
  | write (request : SampleStreamRequest)
  | push (sample : Sample ε)

/-- `OpenStreamAndFetch` の途中の状態。 -/
structure Fetch (P ε : Type) where
  env : Env P
  trace : List (Event ε)
  numSamplesReturned : Int

/-- `Push` が断られたときの status。 -/
def closeCalledStatus : Status := ⟨.cancelled, "`Close` called on ReplaySampler."⟩

/-- `while (!SampleIsDone(responses))` の結果。 -/
inductive ReadOutcome (P : Type) where
  /-- 集めた response と、stream の残り。 -/
  | done (responses rest : List (SampleStreamResponse P))
  /-- `Read` が false を返した。 -/
  | failed

/-- 一つの sample の response を `SampleIsDone` になるまで読む。 -/
def readResponses (responses stream : List (SampleStreamResponse P)) : Option (ReadOutcome P) :=
  (sampleIsDone codec responses).bind fun done =>
    if done then some (.done responses stream) else
    match stream with
    | [] => some .failed
    | response :: rest => readResponses (responses ++ [response]) rest

/-- `for` の一周：一つの sample を読み、`AsSample` して queue に入れる。 -/
def fetchOne (st : Fetch P ε) : Option (Fetch P ε × Option Status) :=
  match readResponses codec [] st.env.reads with
  | none => none
  | some .failed => some (st, some st.env.finish)
  | some (.done responses rest) =>
    match asSample codec responses, st.env.pushes with
    | none, _ => none
    | some sample, true :: pushes =>
      some ({ st with env := { st.env with reads := rest, pushes },
                      trace := st.trace ++ [.push sample],
                      numSamplesReturned := st.numSamplesReturned + 1 }, none)
    | some _, _ => some (st, some closeCalledStatus)

/-- `for (int64_t i = 0; i < request.num_samples(); i++)`。 -/
def fetchLoop : Nat → Fetch P ε → Option (Fetch P ε × Option Status)
  | 0, st => some (st, none)
  | n + 1, st =>
    match fetchOne codec st with
    | none => none
    | some (st, some status) => some (st, some status)
    | some (st, none) => fetchLoop n st

/-- `fetchOne` が先へ進むなら、読んだ response から組んだ sample を一つ queue に入れている。
`Write` の答えには触らない。 -/
theorem fetchOne_next {st st' : Fetch P ε} (h : fetchOne codec st = some (st', none)) :
    ∃ responses sample, asSample codec responses = some sample ∧
      st'.trace = st.trace ++ [.push sample] ∧
      st'.numSamplesReturned = st.numSamplesReturned + 1 ∧ st'.env.finish = st.env.finish ∧
      st'.env.writes = st.env.writes := by
  unfold fetchOne at h
  split at h
  · cases h
  · cases h
  · rename_i responses _ _
    split at h
    · cases h
    · cases h
      exact ⟨responses, _, ‹_›, rfl, rfl, rfl, rfl⟩
    · cases h

/-- `fetchOne` が戻るなら、状態は変えず、`Read` が false を返したときの `Finish()` の status か、
`Push` が断られたときの `CANCELLED` を返す。 -/
theorem fetchOne_ret {st st' : Fetch P ε} {status : Status}
    (h : fetchOne codec st = some (st', some status)) :
    st' = st ∧ (status = st.env.finish ∧ readResponses codec [] st.env.reads = some .failed ∨
      status = closeCalledStatus) := by
  unfold fetchOne at h
  split at h
  · cases h
  · rename_i hread
    cases h
    exact ⟨rfl, .inl ⟨rfl, hread⟩⟩
  · split at h
    · cases h
    · cases h
    · cases h; exact ⟨rfl, .inr rfl⟩

/-- `for` を抜けたなら、`num_samples_returned` はちょうど回数だけ増えている。 -/
theorem fetchLoop_numSamplesReturned {n : Nat} {st st' : Fetch P ε}
    (h : fetchLoop codec n st = some (st', none)) :
    st'.numSamplesReturned = st.numSamplesReturned + n := by
  induction n generalizing st with
  | zero => cases h; simp
  | succ n ih =>
    unfold fetchLoop at h
    split at h
    · cases h
    · cases h
    · rename_i st1 h1
      obtain ⟨-, -, -, -, h2, -⟩ := fetchOne_next codec h1
      rw [ih h, h2]; push_cast; omega

/-- request の `num_samples`：`min(samples_per_request_, num_samples - num_samples_returned)`。 -/
def requestSize (w : Worker) (numSamples numSamplesReturned : Int) : Int :=
  min w.samplesPerRequest (numSamples - numSamplesReturned)

/-- `while (num_samples_returned < num_samples)`。 -/
def requestLoop (w : Worker) (numSamples : Int) (st : Fetch P ε) :
    Option (Fetch P ε × Option Status) :=
  if st.numSamplesReturned < numSamples then
    let request : SampleStreamRequest :=
      ⟨w.table, requestSize w numSamples st.numSamplesReturned⟩
    match st.env.writes with
    | true :: writes =>
      let st' := { st with env := { st.env with writes }, trace := st.trace ++ [.write request] }
      match h : fetchLoop codec request.numSamples.toNat st' with
      | none => none
      | some (st'', some status) => some (st'', some status)
      | some (st'', none) => requestLoop w numSamples st''
    | _ => some (st, some st.env.finish)
  else some (st, none)
termination_by (numSamples - st.numSamplesReturned).toNat
decreasing_by
  have h1 := fetchLoop_numSamplesReturned codec h
  have h2 := w.samplesPerRequest_pos
  simp only [requestSize] at h1
  omega

/-- `while` の条件が偽なら、ループを抜ける。 -/
theorem requestLoop_done {w : Worker} {numSamples : Int} {st : Fetch P ε}
    (h : ¬ st.numSamplesReturned < numSamples) :
    requestLoop codec w numSamples st = some (st, none) := by
  rw [requestLoop, if_neg h]

/-- request の `Write` が false を返せば、`Finish()` の status で戻る。 -/
theorem requestLoop_noWrite {w : Worker} {numSamples : Int} {st : Fetch P ε}
    (hlt : st.numSamplesReturned < numSamples) (hw : st.env.writes.head? ≠ some true) :
    requestLoop codec w numSamples st = some (st, some st.env.finish) := by
  rw [requestLoop, if_pos hlt]
  rcases hws : st.env.writes with _ | ⟨_ | _, writes⟩
  · rfl
  · rfl
  · simp [hws] at hw

/-- `while` の一周：request を書けたら `for` を回し、途中で戻らなければ次の周へ進む。 -/
theorem requestLoop_write {w : Worker} {numSamples : Int} {st : Fetch P ε} {writes : List Bool}
    (hlt : st.numSamplesReturned < numSamples) (hw : st.env.writes = true :: writes) :
    requestLoop codec w numSamples st =
      (fetchLoop codec (requestSize w numSamples st.numSamplesReturned).toNat
        { st with env := { st.env with writes },
                  trace := st.trace ++
                    [.write ⟨w.table, requestSize w numSamples st.numSamplesReturned⟩] }).bind
        fun p => match p.2 with
          | some status => some (p.1, some status)
          | none => requestLoop codec w numSamples p.1 := by
  rw [requestLoop, if_pos hlt]
  simp only [hw]
  split <;> rename_i heq <;> rw [heq] <;> rfl

/-- 途中で戻った `for` の後は、その status で戻る。 -/
theorem requestLoop_ret {w : Worker} {numSamples : Int} {st st' : Fetch P ε} {writes : List Bool}
    {status : Status} (hlt : st.numSamplesReturned < numSamples)
    (hw : st.env.writes = true :: writes)
    (hf : fetchLoop codec (requestSize w numSamples st.numSamplesReturned).toNat
      { st with env := { st.env with writes },
                trace := st.trace ++
                  [.write ⟨w.table, requestSize w numSamples st.numSamplesReturned⟩] }
      = some (st', some status)) :
    requestLoop codec w numSamples st = some (st', some status) := by
  rw [requestLoop_write codec hlt hw, hf]
  rfl

/-- 途中で戻らなかった `for` の後は、次の周へ進む。 -/
theorem requestLoop_next {w : Worker} {numSamples : Int} {st st' : Fetch P ε} {writes : List Bool}
    (hlt : st.numSamplesReturned < numSamples) (hw : st.env.writes = true :: writes)
    (hf : fetchLoop codec (requestSize w numSamples st.numSamplesReturned).toNat
      { st with env := { st.env with writes },
                trace := st.trace ++
                  [.write ⟨w.table, requestSize w numSamples st.numSamplesReturned⟩] }
      = some (st', none)) :
    requestLoop codec w numSamples st = requestLoop codec w numSamples st' := by
  rw [requestLoop_write codec hlt hw, hf]
  rfl

/-- `for` を抜けて `num_samples` に届けば、ループを抜ける。 -/
theorem requestLoop_last {w : Worker} {numSamples : Int} {st st' : Fetch P ε} {writes : List Bool}
    (hlt : st.numSamplesReturned < numSamples) (hw : st.env.writes = true :: writes)
    (hf : fetchLoop codec (requestSize w numSamples st.numSamplesReturned).toNat
      { st with env := { st.env with writes },
                trace := st.trace ++
                  [.write ⟨w.table, requestSize w numSamples st.numSamplesReturned⟩] }
      = some (st', none))
    (hdone : ¬ st'.numSamplesReturned < numSamples) :
    requestLoop codec w numSamples st = some (st', none) := by
  rw [requestLoop_next codec hlt hw hf, requestLoop_done codec hdone]

/-- `OpenStreamAndFetch`。結果は残したこと、返す数、返す status。 -/
def openStreamAndFetch (w : Worker) (env : Env P) (numSamples : Int) :
    Option (List (Event ε) × Int × Status) :=
  if w.closed then some ([], 0, closeCalledStatus) else do
    let (st, status) ← requestLoop codec w numSamples ⟨env, [], 0⟩
    match status with
    | some status => some (st.trace, st.numSamplesReturned, status)
    | none =>
      if st.numSamplesReturned = numSamples then some (st.trace, st.numSamplesReturned, .okStatus)
      else none

end Reverb
