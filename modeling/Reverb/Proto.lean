import Reverb.Tensor

/-!
# stream に流れる message と status

`replay_sampler.cc` が読む proto の field と、gRPC の status。
読まれない field（`chunk_key` など）は持たない。

`TensorProto` の中身と、それを tensor に戻す `tensor_compression.h` の二つの関数は src にない。
それらは `Codec` としてまとめて引数にとる。
-/

namespace Reverb

/-- `SequenceRange`。最初の chunk の中の開始行と、item の長さ（行数）。どちらも proto の `int64`。 -/
structure SequenceRange where
  offset : Int
  length : Int
  deriving DecidableEq, Repr

/-- `PrioritizedItem` のうち読まれる field。 -/
structure PrioritizedItem where
  key : UInt64
  sequenceRange : SequenceRange
  deriving Repr

/-- `SampleInfo`。 -/
structure SampleInfo where
  item : PrioritizedItem
  probability : Float
  tableSize : Int
  deriving Repr

/-- `ChunkData`。`data` は `TensorProto` の並び。 -/
structure ChunkData (P : Type) where
  data : List P
  deltaEncoded : Bool
  deriving Repr

/-- `SampleStreamResponse`。一つの chunk と、それが属する item の情報。 -/
structure SampleStreamResponse (P : Type) where
  info : SampleInfo
  data : ChunkData P
  deriving Repr

/-- `SampleStreamRequest`。 -/
structure SampleStreamRequest where
  table : String
  numSamples : Int
  deriving DecidableEq, Repr

/--
src にない、`TensorProto` を扱う三つのもの。

* `dim0` — `tensor_shape().dim(0).size()`
* `decompressTensorFromProto` — `DecompressTensorFromProto`
* `deltaEncode` — `DeltaEncode(tensor, encode)`
-/
structure Codec (P ε : Type) where
  dim0 : P → Int
  decompressTensorFromProto : P → Tensor ε
  deltaEncode : Tensor ε → Bool → Tensor ε

/-- `grpc::StatusCode`（TF の error code と同じ番号）。 -/
inductive StatusCode where
  | ok | cancelled | unknown | invalidArgument | deadlineExceeded | notFound | alreadyExists
  | permissionDenied | resourceExhausted | failedPrecondition | aborted | outOfRange
  | unimplemented | internal | unavailable | dataLoss | unauthenticated
  deriving DecidableEq, Repr

/--
`grpc::Status` と `tensorflow::Status`。

`FromGrpcStatus`（src にない）は code と message をそのまま写すので、二つを一つの型で表す。
-/
structure Status where
  code : StatusCode
  message : String
  deriving DecidableEq, Repr

namespace Status

/-- `Status::OK`。 -/
def okStatus : Status := ⟨.ok, ""⟩

/-- `ok()`。 -/
def ok (s : Status) : Bool := s.code == .ok

@[simp] theorem ok_okStatus : okStatus.ok = true := rfl

end Status

end Reverb
