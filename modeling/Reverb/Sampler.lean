import Reverb.Worker

/-!
# `ReplaySampler`

client 側の sampler。worker thread が stream から組み立てた sample を queue `samples_` に入れ、
利用者は `GetNextTimestep`（一行ずつ）か `GetNextSample`（まとめて）で取り出す。

`mu_` で守られた区間と queue の一回の操作を、それぞれ一つの関数とする。
thread の交互の進み方は `Reverb.Properties.System` で扱う。

## `Queue`

`samples_` の `internal::Queue` は src/ にない。reverb の `Queue` の振る舞いとして次を使う。

* `Push` — 閉じていれば false。満杯なら待つ。そうでなければ末尾に入れて true。
* `Pop` — 閉じていれば false。空なら待つ。そうでなければ先頭を取り出して true。
* `Close` — 閉じる。入っている要素は残るが、もう取り出せない。

待つ呼び出しは `none` を返す。`CHECK` が落ちる呼び出しと null の参照も `none` である。
-/

namespace Reverb

/-- `internal::Queue<T>`。 -/
structure Queue (α : Type) where
  items : List α
  capacity : Nat
  closed : Bool

namespace Queue

variable {α : Type}

/-- `Push`。 -/
def push (q : Queue α) (x : α) : Option (Bool × Queue α) :=
  if q.closed then some (false, q)
  else if q.items.length < q.capacity then some (true, { q with items := q.items ++ [x] })
  else none

/-- `Pop`。取り出せたなら `some x`。 -/
def pop (q : Queue α) : Option (Option α × Queue α) :=
  if q.closed then some (none, q)
  else
    match q.items with
    | [] => none
    | x :: xs => some (some x, { q with items := xs })

/-- `Close`。 -/
def close (q : Queue α) : Queue α := { q with closed := true }

@[simp] theorem close_items (q : Queue α) : q.close.items = q.items := rfl

end Queue

namespace Worker

/-- `Worker::Cancel`。`context_->TryCancel()` が切る stream は、`Env` の答えとして表される。 -/
def cancel (w : Worker) : Worker := { w with closed := true }

end Worker

/--
`ReplaySampler` の field。

`max_samples_` と `max_samples_per_stream_` は、`Options` の既定値（src/ にない定数）を
解いた後の値である。
-/
structure ReplaySampler (ε : Type) where
  maxSamples : Int
  maxSamplesPerStream : Int
  requested : Int
  returned : Int
  closed : Bool
  streamStatus : Status
  samples : Queue (Sample ε)
  activeSample : Option (Sample ε)

namespace ReplaySampler

variable {ε : Type}

/-- constructor が作る状態。queue の容量は `max(num_workers, 1)`。 -/
def init (maxSamples maxSamplesPerStream numWorkers : Int) : ReplaySampler ε :=
  { maxSamples, maxSamplesPerStream, requested := 0, returned := 0, closed := false,
    streamStatus := .okStatus, samples := ⟨[], (max numWorkers 1).toNat, false⟩,
    activeSample := none }

/-- `should_stop_workers()`。 -/
def shouldStopWorkers (r : ReplaySampler ε) : Bool :=
  r.closed || r.returned == r.maxSamples || !r.streamStatus.ok

/-- `if (++returned_ == max_samples_) samples_.Close();` -/
def countReturned (r : ReplaySampler ε) : ReplaySampler ε :=
  let returned := r.returned + 1
  { r with returned, samples := if returned = r.maxSamples then r.samples.close else r.samples }

/-- `PopNextSample`。status と、取り出せたならその sample。 -/
def popNextSample (r : ReplaySampler ε) : Option (Status × Option (Sample ε) × ReplaySampler ε) :=
  r.samples.pop.map fun (sample, samples) =>
    match sample with
    | some sample => (.okStatus, some sample, { r with samples })
    | none =>
      let status : Status :=
        if r.returned = r.maxSamples then ⟨.outOfRange, "`max_samples` already returned."⟩
        else if r.closed then ⟨.cancelled, "Sampler has been cancelled."⟩
        else r.streamStatus
      (status, none, r)

/-- `MaybeSampleNext`。今の sample に行が残っていれば何もしない。 -/
def maybeSampleNext (r : ReplaySampler ε) : Option (Status × ReplaySampler ε) :=
  if r.activeSample.any fun s => !s.isEndOfSample then some (.okStatus, r)
  else
    (popNextSample r).map fun (status, sample, r) =>
      match sample with
      | some sample => (status, { r with activeSample := some sample })
      | none => (status, r)

/-- `GetNextTimestep` のうち `mu_` を取る前まで。結果は返す行と `*end_of_sequence`。 -/
def takeTimestep (r : ReplaySampler ε) :
    Option (Except Status (List (Tensor ε) × Bool) × ReplaySampler ε) := do
  let (status, r) ← maybeSampleNext r
  if !status.ok then return (.error status, r)
  let active ← r.activeSample
  let (data, active) ← active.getNextTimestep
  return (.ok (data, active.isEndOfSample), { r with activeSample := some active })

/-- `ReplaySampler::GetNextTimestep`。sample を使い切ったら `returned_` を数える。 -/
def getNextTimestep (r : ReplaySampler ε) :
    Option (Except Status (List (Tensor ε) × Bool) × ReplaySampler ε) := do
  let (result, r) ← takeTimestep r
  match result with
  | .ok (data, true) => return (.ok (data, true), countReturned r)
  | result => return (result, r)

/-- `GetNextSample` のうち `mu_` を取る前まで。 -/
def takeSample (r : ReplaySampler ε) :
    Option (Except Status (List (Tensor ε)) × ReplaySampler ε) := do
  let (status, sample, r) ← popNextSample r
  if !status.ok then return (.error status, r)
  let sample ← sample
  let data ← sample.asBatchedTimesteps
  return (.ok data, r)

/-- `ReplaySampler::GetNextSample`。 -/
def getNextSample (r : ReplaySampler ε) :
    Option (Except Status (List (Tensor ε)) × ReplaySampler ε) := do
  let (result, r) ← takeSample r
  match result with
  | .ok data => return (.ok data, countReturned r)
  | .error status => return (.error status, r)

/--
`RunWorker` の `mu_.LockWhen(trigger)` からの区間。`trigger` が偽の間は待つ。
結果の `none` は `should_stop_workers()` で戻ること、`some n` は `samples_to_stream`。
-/
def reserve (r : ReplaySampler ε) : Option (Option Int × ReplaySampler ε) :=
  if r.shouldStopWorkers || decide (r.requested < r.maxSamples) then
    if r.shouldStopWorkers then some (none, r)
    else
      let samplesToStream := min r.maxSamplesPerStream (r.maxSamples - r.requested)
      some (some samplesToStream, { r with requested := r.requested + samplesToStream })
  else none

/-- `RunWorker` の `OpenStreamAndFetch` の後の区間。`true` なら worker は戻る。 -/
def finishStream (r : ReplaySampler ε) (samplesToStream : Int) (result : Int × Status) :
    Bool × ReplaySampler ε :=
  let r := { r with requested := r.requested - (samplesToStream - result.1) }
  if r.streamStatus.ok && !result.2.ok && result.2.code != .unavailable then
    (true, { r with streamStatus := result.2, samples := r.samples.close })
  else (false, r)

/-- `Close` の `mu_` の区間。既に閉じていれば `false` を返し、何もしない。 -/
def markClosed (r : ReplaySampler ε) : Bool × ReplaySampler ε :=
  if r.closed then (false, r) else (true, { r with closed := true })

end ReplaySampler

end Reverb
