import Mathlib.Tactic.Common
import Mathlib.Data.List.GetD
import Mathlib.Algebra.BigOperators.Ring
import Mathlib.Algebra.Order.BigOperators.Group.List
import Mathlib.Tactic.Ring

/-!
# 先頭の次元から見た tensor

`replay_sampler.cc` が `tensorflow::Tensor` に対して行うのは、先頭の次元に沿った操作だけである。
`dim_size(0)`・`Slice`・`SubSlice`・`tensor::Concat`・`InitializeTensor` がそれで、
どれも行の並びへの操作として書ける。

そこで tensor を rank 0 の値（`scalar`）か行の並び（`stack`）として表す。行もまた tensor である。
dtype と、先頭より後ろの次元の形は持たない。`Concat` が dtype の食い違いで失敗する場合は
表さない（一つの table の item は signature で dtype が揃っている）。
TF の `CHECK` が落ちる呼び出しは `none` を返す。
-/

namespace Reverb

/-- rank 0 の値。`Sample` が作る三つの dtype（key・probability・table size）と、データの要素。 -/
inductive Scalar (ε : Type) where
  | uint64 (v : UInt64)
  | double (v : Float)
  | int64 (v : Int)
  | elem (v : ε)
  deriving Repr

/-- `tensorflow::Tensor`。 -/
inductive Tensor (ε : Type) where
  | scalar (v : Scalar ε)
  | stack (rows : List (Tensor ε))
  deriving Repr

/-- どの要素でも `some` を返す `mapM` は、`map` である。 -/
theorem mapM_eq_some_map {α β : Type} {f : α → Option β} {g : α → β} {l : List α}
    (h : ∀ x ∈ l, f x = some (g x)) : l.mapM f = some (l.map g) := by
  induction l with
  | nil => rfl
  | cons x xs ih =>
    rw [List.mapM_cons, h x (List.mem_cons_self _ _),
      ih fun y hy => h y (List.mem_cons_of_mem _ hy)]
    rfl

namespace Tensor

variable {ε : Type}

/-- 既定の `tensorflow::Tensor()`。要素のない rank 1 の tensor である。 -/
instance : Inhabited (Tensor ε) := ⟨stack []⟩

/-- 先頭の次元に沿った行。rank 0 の tensor は行を持たない。 -/
def rows : Tensor ε → List (Tensor ε)
  | scalar _ => []
  | stack rs => rs

/-- `dim_size(0)`。 -/
def dimSize0 (t : Tensor ε) : Nat := t.rows.length

/-- `Tensor::Slice(start, limit)`。`0 ≤ start ≤ limit ≤ dim_size(0)` でなければ `CHECK` が落ちる。 -/
def slice : Tensor ε → Int → Int → Option (Tensor ε)
  | scalar _, _, _ => none
  | stack rs, start, limit =>
    if 0 ≤ start ∧ start ≤ limit ∧ limit ≤ rs.length then
      some (stack ((rs.drop start.toNat).take (limit - start).toNat))
    else none

/-- `Tensor::SubSlice(index)`。`index` 行目。 -/
def subSlice (t : Tensor ε) (index : Nat) : Option (Tensor ε) := t.rows[index]?

/-- rank 1 以上の tensor の行。`Concat` は rank 0 の tensor を受けつけない。 -/
def stackRows : Tensor ε → Option (List (Tensor ε))
  | scalar _ => none
  | stack rs => some rs

/-- `tensor::Concat`。空の並びと rank 0 の tensor は `INVALID_ARGUMENT` になる。 -/
def concat : List (Tensor ε) → Option (Tensor ε)
  | [] => none
  | t :: ts => ((t :: ts).mapM stackRows).map fun rss => stack rss.flatten

/-- `InitializeTensor(value, length)`。`value` を `length` 個並べた rank 1 の tensor。 -/
def initializeTensor (value : Scalar ε) (length : Nat) : Tensor ε :=
  stack (List.replicate length (scalar value))

@[simp] theorem rows_stack (rs : List (Tensor ε)) : (stack rs).rows = rs := rfl

@[simp] theorem dimSize0_stack (rs : List (Tensor ε)) : (stack rs).dimSize0 = rs.length := rfl

@[simp] theorem stackRows_stack (rs : List (Tensor ε)) : (stack rs).stackRows = some rs := rfl

@[simp] theorem rows_initializeTensor (value : Scalar ε) (length : Nat) :
    (initializeTensor value length).rows = List.replicate length (scalar value) := rfl

theorem slice_stack {rs : List (Tensor ε)} {start limit : Int} (h0 : 0 ≤ start)
    (h1 : start ≤ limit) (h2 : limit ≤ rs.length) :
    (stack rs).slice start limit
      = some (stack ((rs.drop start.toNat).take (limit - start).toNat)) := by
  simp [slice, h0, h1, h2]

/-- 行を持つ tensor は行の並びである。 -/
theorem eq_stack_of_dimSize0_pos {t : Tensor ε} (h : 0 < t.dimSize0) : t = stack t.rows := by
  cases t with
  | scalar v => simp [dimSize0, rows] at h
  | stack rs => rfl

theorem slice_of_dimSize0_pos {t : Tensor ε} {start limit : Int} (ht : 0 < t.dimSize0)
    (h0 : 0 ≤ start) (h1 : start ≤ limit) (h2 : limit ≤ t.dimSize0) :
    t.slice start limit = some (stack ((t.rows.drop start.toNat).take (limit - start).toNat)) := by
  rw [eq_stack_of_dimSize0_pos ht]
  exact slice_stack h0 h1 h2

theorem subSlice_eq (t : Tensor ε) (index : Nat) : t.subSlice index = t.rows[index]? := rfl

theorem mapM_stackRows_map_stack (rss : List (List (Tensor ε))) :
    (rss.map stack).mapM stackRows = some rss := by
  induction rss with
  | nil => rfl
  | cons rs rss ih => rw [List.map_cons, List.mapM_cons, ih]; rfl

/-- 行の並びを並べた `Concat` は、行をつないだものである。 -/
theorem concat_map_stack {rss : List (List (Tensor ε))} (h : rss ≠ []) :
    concat (rss.map stack) = some (stack rss.flatten) := by
  cases rss with
  | nil => exact absurd rfl h
  | cons rs rss =>
    rw [List.map_cons, concat, ← List.map_cons, mapM_stackRows_map_stack]
    rfl

/-- 行を持つ tensor の `Concat` は、行をつないだものである。 -/
theorem concat_of_dimSize0_pos {ts : List (Tensor ε)} (hne : ts ≠ [])
    (h : ∀ t ∈ ts, 0 < t.dimSize0) : concat ts = some (stack (ts.map rows).flatten) := by
  have hts : (ts.map rows).map stack = ts := by
    rw [List.map_map]
    exact (List.map_congr_left fun t ht => (eq_stack_of_dimSize0_pos (h t ht)).symm).trans ts.map_id
  conv_lhs => rw [← hts]
  exact concat_map_stack (by simpa using hne)

end Tensor

end Reverb
