import Reverb.Proto

/-!
# `Sample`

client が組み立てた一つの sample。chunk の並びで、chunk は data tensor の並びである
（`std::list<std::vector<tensorflow::Tensor>>`）。

取り出し方は二つある。

* `getNextTimestep` — 一行ずつ。先頭の chunk の `next_timestep_index_` 行目を返し、
  chunk を使い切ったら捨てる。
* `asBatchedTimesteps` — まとめて。`i` 番目の data tensor を chunk をまたいでつなぐ。

どちらも先頭に key・probability・table size の三つを付ける。
-/

namespace Reverb

open Tensor

/-- `Sample` の field。 -/
structure Sample (ε : Type) where
  key : UInt64
  probability : Float
  tableSize : Int
  numTimesteps : Nat
  numDataTensors : Nat
  chunks : List (List (Tensor ε))
  nextTimestepIndex : Nat
  nextTimestepCalled : Bool
  deriving Repr

namespace Sample

variable {ε : Type}

/--
`Sample::Sample`。chunk が一つもないか、先頭の chunk が tensor を持たなければ `CHECK` が落ちる。
`num_timesteps_` は各 chunk の先頭の tensor の行数の和で、tensor を持たない chunk の
`front()` は未定義動作なので `none` とする。
-/
def new (key : UInt64) (probability : Float) (tableSize : Int)
    (chunks : List (List (Tensor ε))) : Option (Sample ε) :=
  match chunks with
  | (front :: batches) :: _ => do
    let dims ← chunks.mapM fun batches => batches.head?.map dimSize0
    some { key, probability, tableSize, numTimesteps := dims.sum,
           numDataTensors := (front :: batches).length, chunks,
           nextTimestepIndex := 0, nextTimestepCalled := false }
  | _ => none

/-- `is_end_of_sample()`。 -/
def isEndOfSample (s : Sample ε) : Bool := s.chunks.isEmpty

/-- 出力の先頭に付く三つ：`Tensor(key_)`・`Tensor(probability_)`・`Tensor(table_size_)`。 -/
def meta (s : Sample ε) : List (Tensor ε) :=
  [scalar (.uint64 s.key), scalar (.double s.probability), scalar (.int64 s.tableSize)]

/-- `Sample::GetNextTimestep`。使い切った sample では `CHECK` が落ちる。 -/
def getNextTimestep (s : Sample ε) : Option (List (Tensor ε) × Sample ε) :=
  match s.chunks with
  | [] => none
  | front :: rest => do
    let slices ← front.mapM fun t => t.subSlice s.nextTimestepIndex
    let head ← front.head?
    let index := s.nextTimestepIndex + 1
    let s' := if index = head.dimSize0 then { s with chunks := rest, nextTimestepIndex := 0 }
      else { s with nextTimestepIndex := index }
    some (s.meta ++ slices, { s' with nextTimestepCalled := true })

/--
`AsBatchedTimesteps` の `(it_to++)->push_back(std::move(batch))`。
chunk の `i` 番目の tensor を `data_tensors[i]` の後ろに足す。
`data_tensors` より多くの tensor を持つ chunk は範囲の外に書く（未定義動作）ので `none`。
-/
def pushBatches : List (List (Tensor ε)) → List (Tensor ε) → Option (List (List (Tensor ε)))
  | dataTensors, [] => some dataTensors
  | [], _ :: _ => none
  | d :: ds, batch :: batches => (pushBatches ds batches).map ((d ++ [batch]) :: ·)

/-- `Sample::AsBatchedTimesteps`。一度でも `GetNextTimestep` を呼んだ sample では `CHECK` が落ちる。 -/
def asBatchedTimesteps (s : Sample ε) : Option (List (Tensor ε)) :=
  if s.nextTimestepCalled then none else do
    let dataTensors ← s.chunks.foldlM pushBatches (List.replicate s.numDataTensors [])
    let data ← dataTensors.mapM concat
    some ([initializeTensor (.uint64 s.key) s.numTimesteps,
      initializeTensor (.double s.probability) s.numTimesteps,
      initializeTensor (.int64 s.tableSize) s.numTimesteps] ++ data)

/-- chunk の行数。`chunks_.front().front().dim_size(0)` と同じく、先頭の tensor の行数で測る。 -/
def chunkLength (c : List (Tensor ε)) : Nat := (c.headD default).dimSize0

/-- 行を取り出せる chunk：tensor を持ち、どの tensor も同じ正の行数を持つ。 -/
def ChunkValid (c : List (Tensor ε)) : Prop :=
  c ≠ [] ∧ 0 < chunkLength c ∧ ∀ t ∈ c, t.dimSize0 = chunkLength c

/-- `j` 番目の tensor の行を、chunk をまたいでつないだもの。 -/
def column (j : Nat) (chunks : List (List (Tensor ε))) : List (Tensor ε) :=
  (chunks.map fun c => (c.getD j default).rows).flatten

@[simp] theorem column_nil (j : Nat) : column j ([] : List (List (Tensor ε))) = [] := rfl

@[simp] theorem column_cons (j : Nat) (c : List (Tensor ε)) (cs : List (List (Tensor ε))) :
    column j (c :: cs) = (c.getD j default).rows ++ column j cs := rfl

theorem mapM_head_dimSize0 {chunks : List (List (Tensor ε))} (h : ∀ c ∈ chunks, c ≠ []) :
    chunks.mapM (fun batches => batches.head?.map dimSize0) = some (chunks.map chunkLength) := by
  induction chunks with
  | nil => rfl
  | cons c cs ih =>
    obtain ⟨t, ts, rfl⟩ := List.exists_cons_of_ne_nil (h _ (List.mem_cons_self _ _))
    rw [List.mapM_cons, ih fun c hc => h c (List.mem_cons_of_mem _ hc)]
    rfl

/-- どの chunk も tensor を持てば、constructor は `CHECK` を通り、行数の和を `num_timesteps_` とする。 -/
theorem new_eq {key : UInt64} {probability : Float} {tableSize : Int}
    {chunks : List (List (Tensor ε))} (hne : chunks ≠ []) (h : ∀ c ∈ chunks, c ≠ []) :
    new key probability tableSize chunks = some
      { key, probability, tableSize, numTimesteps := (chunks.map chunkLength).sum,
        numDataTensors := (chunks.headD []).length, chunks, nextTimestepIndex := 0,
        nextTimestepCalled := false } := by
  obtain ⟨c, cs, rfl⟩ := List.exists_cons_of_ne_nil hne
  obtain ⟨t, ts, rfl⟩ := List.exists_cons_of_ne_nil (h _ (List.mem_cons_self _ _))
  simp only [new, mapM_head_dimSize0 h]
  rfl

@[simp] theorem isEndOfSample_iff (s : Sample ε) : s.isEndOfSample = true ↔ s.chunks = [] :=
  List.isEmpty_iff

theorem getNextTimestep_nil {s : Sample ε} (h : s.chunks = []) : s.getNextTimestep = none := by
  simp [getNextTimestep, h]

end Sample

end Reverb
