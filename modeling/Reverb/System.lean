import Reverb.Sampler

/-!
# sampler の thread

`ReplaySampler` は、worker ごとの thread（`RunWorker`）と利用者の thread からなる。
thread は次の単位で進み、単位どうしは任意の順に交互に起こる。

* `mu_` で守られた一つの区間
* queue の一回の操作
* 利用者の thread だけが触る値（`active_sample_`、`Sample`）の操作は、前後の単位に含める

worker の stream は `OpenStreamAndFetch` のモデル（`Reverb.Worker`）の一回の実行である。
stream の答え `Env` は何でもよく、その実行が queue に入れる sample を、queue の `Push` が
受け付けるときに一つずつ入れる（`Push` が待つ間は進まない）。
`Close` は `closed_` を立てる区間の後で、worker の `Cancel` と queue の `Close` をする。

利用者の thread は一つとする。`active_sample_` は `mu_` で守られていないので、
`GetNextTimestep` を二つの thread から同時に呼ぶことはできない。

`World` の `finished` と `pushed` は数えるためだけの値で、コードにはない。
-/

namespace Reverb

variable {P ε : Type}

/-- worker が queue に入れた sample。 -/
def pushedSamples (trace : List (Event ε)) : List (Sample ε) :=
  trace.filterMap fun
    | .push sample => some sample
    | .write _ => none

/-- `RunWorker` の中の位置。 -/
inductive WorkerPc (ε : Type) where
  /-- `mu_.LockWhen(trigger)` で待つ。 -/
  | waiting
  /-- `samples_to_stream` を取り、`OpenStreamAndFetch` を呼ぶ前。 -/
  | reserved (samplesToStream : Int)
  /-- `OpenStreamAndFetch` の中。`pushes` はこれから queue に入れる sample、`result` は戻り値。 -/
  | streaming (samplesToStream : Int) (pushes : List (Sample ε)) (result : Int × Status)
  /-- `RunWorker` から戻った。 -/
  | stopped

/-- `RunWorker` の最初の区間の後の位置。 -/
def WorkerPc.ofReserve : Option Int → WorkerPc ε
  | some samplesToStream => .reserved samplesToStream
  | none => .stopped

/-- worker の thread。 -/
structure WorkerThread (ε : Type) where
  worker : Worker
  pc : WorkerPc ε

/-- 利用者の thread の位置。 -/
inductive ConsumerPc where
  | idle
  /-- sample を取り出したか sample の最後の行を渡して、`returned_` を数える前。 -/
  | counting
  deriving DecidableEq

/-- `GetNextTimestep` の前半の後の位置。最後の行を渡したときだけ数えに行く。 -/
def ConsumerPc.afterTimestep : Except Status (List (Tensor ε) × Bool) → ConsumerPc
  | .ok (_, true) => .counting
  | _ => .idle

/-- `GetNextSample` の前半の後の位置。 -/
def ConsumerPc.afterSample : Except Status (List (Tensor ε)) → ConsumerPc
  | .ok _ => .counting
  | .error _ => .idle

/-- sampler と、その thread。 -/
structure World (ε : Type) where
  sampler : ReplaySampler ε
  workers : List (WorkerThread ε)
  consumer : ConsumerPc
  /-- 終わった stream が queue に入れた sample の数。 -/
  finished : Int
  /-- queue に入った sample の数。 -/
  pushed : Nat

namespace World

/-- constructor が worker の thread を始めたところ。 -/
def init (maxSamples maxSamplesPerStream numWorkers : Int) (workers : List Worker) : World ε :=
  { sampler := .init maxSamples maxSamplesPerStream numWorkers,
    workers := workers.map fun worker => ⟨worker, .waiting⟩,
    consumer := .idle, finished := 0, pushed := 0 }

/-- 一つの thread の一つの単位。 -/
inductive Step (codec : Codec P ε) : World ε → World ε → Prop
  /-- `RunWorker` の最初の区間：待ってから、戻るか `samples_to_stream` を取る。 -/
  | reserve {w : World ε} {i : Nat} {t : WorkerThread ε} {result : Option Int}
      {r : ReplaySampler ε} :
      w.workers[i]? = some t → t.pc = .waiting → w.sampler.reserve = some (result, r) →
      Step codec w
        { w with
          sampler := r
          workers := w.workers.set i { t with pc := .ofReserve result } }
  /-- `OpenStreamAndFetch` の一回の実行を選ぶ。 -/
  | openStream {w : World ε} {i : Nat} {t : WorkerThread ε} {samplesToStream : Int}
      (env : Env P) {trace : List (Event ε)} {count : Int} {status : Status} :
      w.workers[i]? = some t → t.pc = .reserved samplesToStream →
      openStreamAndFetch codec t.worker env samplesToStream = some (trace, count, status) →
      Step codec w
        { w with
          workers := w.workers.set i
            { t with pc := .streaming samplesToStream (pushedSamples trace) (count, status) } }
  /-- `OpenStreamAndFetch` の `samples->Push(...)`。 -/
  | push {w : World ε} {i : Nat} {t : WorkerThread ε} {samplesToStream : Int} {s : Sample ε}
      {pushes : List (Sample ε)} {result : Int × Status} {q : Queue (Sample ε)} :
      w.workers[i]? = some t → t.pc = .streaming samplesToStream (s :: pushes) result →
      w.sampler.samples.push s = some (true, q) →
      Step codec w
        { w with
          sampler := { w.sampler with samples := q }
          workers := w.workers.set i { t with pc := .streaming samplesToStream pushes result }
          pushed := w.pushed + 1 }
  /-- `OpenStreamAndFetch` から戻った後の区間。 -/
  | finish {w : World ε} {i : Nat} {t : WorkerThread ε} {samplesToStream : Int}
      {result : Int × Status} {stop : Bool} {r : ReplaySampler ε} :
      w.workers[i]? = some t → t.pc = .streaming samplesToStream [] result →
      w.sampler.finishStream samplesToStream result = (stop, r) →
      Step codec w
        { w with
          sampler := r
          workers := w.workers.set i { t with pc := if stop then .stopped else .waiting }
          finished := w.finished + result.1 }
  /-- `GetNextTimestep` のうち、`mu_` を取る前まで。 -/
  | timestep {w : World ε} {result : Except Status (List (Tensor ε) × Bool)}
      {r : ReplaySampler ε} :
      w.consumer = .idle → w.sampler.takeTimestep = some (result, r) →
      Step codec w { w with sampler := r, consumer := .afterTimestep result }
  /-- `GetNextSample` のうち、`mu_` を取る前まで。 -/
  | sample {w : World ε} {result : Except Status (List (Tensor ε))} {r : ReplaySampler ε} :
      w.consumer = .idle → w.sampler.takeSample = some (result, r) →
      Step codec w { w with sampler := r, consumer := .afterSample result }
  /-- `GetNextTimestep` と `GetNextSample` の `mu_` の区間。 -/
  | count {w : World ε} :
      w.consumer = .counting →
      Step codec w { w with sampler := w.sampler.countReturned, consumer := .idle }
  /-- `Close` の `mu_` の区間。 -/
  | close {w : World ε} {b : Bool} {r : ReplaySampler ε} :
      w.sampler.markClosed = (b, r) → Step codec w { w with sampler := r }
  /-- `Close` の `worker->Cancel()`。 -/
  | cancel {w : World ε} {i : Nat} {t : WorkerThread ε} :
      w.sampler.closed = true → w.workers[i]? = some t →
      Step codec w { w with workers := w.workers.set i { t with worker := t.worker.cancel } }
  /-- `Close` の `samples_.Close()`。 -/
  | closeQueue {w : World ε} :
      w.sampler.closed = true →
      Step codec w { w with sampler := { w.sampler with samples := w.sampler.samples.close } }

/-- `w₀` から thread の単位を重ねて届く状態。 -/
inductive Reachable (codec : Codec P ε) (w₀ : World ε) : World ε → Prop
  | init : Reachable codec w₀ w₀
  | step {w w' : World ε} : Reachable codec w₀ w → Step codec w w' → Reachable codec w₀ w'

end World

end Reverb
