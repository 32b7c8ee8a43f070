import Reverb.Sample

/-!
# response の並びから `Sample` を組み立てる

`SampleIsDone` と `AsSample`。一つの item は stream の上で何個かの response に分かれて届く。
各 response は一つの chunk で、chunk は data tensor を一つずつ `TensorProto` で持つ。

item の行は、最初の chunk の `offset` 行目から `length` 行ぶんである。
`AsSample` は最初の chunk の前の部分と、最後の chunk の後ろの部分を切り落とす。
`remaining` はまだ集めていない行数で、各 response の前で正、最後に 0 でなければ `CHECK` が落ちる。

## 二つのループ

* `releaseLoop` — response の中。`ReleaseLast` で後ろの tensor から取り出すので
  `data` を逆順に読み、`batches[insert_index--]` で後ろから埋める。
* `asSampleLoop` — response ごと。切り出した chunk を並べ、`remaining` を減らし、
  `offset` を 0 にする。
-/

namespace Reverb

open Tensor

variable {P ε : Type} (codec : Codec P ε)

/-- `SampleIsDone`。先頭の data tensor の行数の和が `length + offset` に届いたか。
data tensor を持たない response の `data(0)` は範囲の外を読む（未定義動作）ので `none`。 -/
def sampleIsDone (sample : List (SampleStreamResponse P)) : Option Bool :=
  match sample with
  | [] => some false
  | front :: _ => do
    let dims ← sample.mapM fun response => response.data.data.head?.map codec.dim0
    let range := front.info.item.sequenceRange
    some (decide (range.length + range.offset ≤ dims.sum))

/-- 一つの `TensorProto` を tensor に戻す（`DecompressTensorFromProto` と、必要なら `DeltaEncode`）。 -/
def decodeChunk (deltaEncoded : Bool) (chunk : P) : Tensor ε :=
  let batch := codec.decompressTensorFromProto chunk
  if deltaEncoded then codec.deltaEncode batch false else batch

/-- `batch_size` を最初の tensor の行数で決め、後の tensor では同じ行数であることを `CHECK` する。 -/
def checkBatchSize (batchSize dim : Int) : Option Int :=
  if batchSize < 0 then some dim else if batchSize = dim then some batchSize else none

/-- `AsSample` の内側の `while`。結果は埋めた `batches` と `batch_size`。 -/
def releaseLoop (deltaEncoded : Bool) (offset remaining : Int) :
    List P → List (Tensor ε) → Int → Nat → Option (List (Tensor ε) × Int)
  | [], batches, batchSize, _ => some (batches, batchSize)
  | chunk :: rest, batches, batchSize, insertIndex => do
    let batch := decodeChunk codec deltaEncoded chunk
    let batchSize ← checkBatchSize batchSize batch.dimSize0
    let batch ← batch.slice offset (min (offset + remaining) batchSize)
    releaseLoop deltaEncoded offset remaining rest (batches.set insertIndex batch) batchSize
      (insertIndex - 1)

/-- `AsSample` の外側の `for`。結果は chunk の並びと、最後の `remaining`。 -/
def asSampleLoop :
    Int → Int → List (SampleStreamResponse P) → Option (List (List (Tensor ε)) × Int)
  | _, remaining, [] => some ([], remaining)
  | offset, remaining, response :: rest =>
    if 0 < remaining then do
      let n := response.data.data.length
      let (batches, batchSize) ← releaseLoop codec response.data.deltaEncoded offset remaining
        response.data.data.reverse (List.replicate n default) (-1) (n - 1)
      let (chunks, remaining) ←
        asSampleLoop 0 (remaining - min remaining (batchSize - offset)) rest
      some (batches :: chunks, remaining)
    else none

/-- `AsSample`。空の並びの `front()` は未定義動作なので `none`。 -/
def asSample (responses : List (SampleStreamResponse P)) : Option (Sample ε) :=
  match responses with
  | [] => none
  | front :: _ => do
    let info := front.info
    let (chunks, remaining) ← asSampleLoop codec info.item.sequenceRange.offset
      info.item.sequenceRange.length responses
    if remaining = 0 then Sample.new info.item.key info.probability info.tableSize chunks
    else none

end Reverb
