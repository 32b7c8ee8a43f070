import Reverb.Tensor

/-!
# `InsertOnSampleExtension`

表の extension。表の item が初めて sample されたとき、その写しを別の表（target）に入れる。

表（`Table`）とその `InsertOrAssign` は src にない。extension から見た表は、名前と、
どの表を指すかだけを持つ。`InsertOrAssign` の呼び出しは、extension が外に残すこととして返す。
その status は log に書かれるだけなので、モデルには現れない。
-/

namespace Reverb

/-- extension から見た表：`name()` と、`shared_ptr` が指す表。 -/
structure Table where
  name : String
  id : Nat
  deriving DecidableEq, Repr

/-- 表の item の `PrioritizedItem`。extension が触る field と、残りの field `rest`。 -/
structure ItemProto (ρ : Type) where
  key : UInt64
  table : String
  timesSampled : Int
  insertedAt : Option Int
  rest : ρ

/-- `Table::Item`：proto と chunk。 -/
structure TableItem (ρ χ : Type) where
  item : ItemProto ρ
  chunks : List χ

/-- `ExtensionItem`：表が extension に渡す item と、その時点の `times_sampled`。 -/
structure ExtensionItem (ρ χ : Type) where
  ref : TableItem ρ χ
  timesSampled : Int

/-- `target_table_->InsertOrAssign(item, timeout_)` の呼び出し。 -/
structure InsertCall (ρ χ : Type) where
  table : Table
  item : TableItem ρ χ
  timeout : Int

/-- `kUndefinedName`。 -/
def undefinedName : String := "__UNDEFINED__"

/-- `InsertOnSampleExtension` の field。 -/
structure InsertOnSampleExtension where
  targetTable : Table
  tableName : String
  timeout : Int

namespace InsertOnSampleExtension

variable {ρ χ : Type}

/-- constructor。登録されるまで、元の表の名前は `kUndefinedName`。 -/
def new (targetTable : Table) (timeout : Int) : InsertOnSampleExtension :=
  ⟨targetTable, undefinedName, timeout⟩

/-- 写しの proto：表の名前を target のものにし、`inserted_at` を消す。`key` と `times_sampled` は残る。 -/
def copyItem (e : InsertOnSampleExtension) (proto : ItemProto ρ) : ItemProto ρ :=
  { proto with table := e.targetTable.name, insertedAt := none }

/-- `target_table_->InsertOrAssign(Table::Item(std::move(copy), item.ref->chunks()), timeout_)`。 -/
def insertOf (e : InsertOnSampleExtension) (item : ExtensionItem ρ χ) : InsertCall ρ χ :=
  ⟨e.targetTable, ⟨e.copyItem item.ref.item, item.ref.chunks⟩, e.timeout⟩

/-- `ApplyOnSample`。初めて sample された item だけを target に入れる。 -/
def applyOnSample (e : InsertOnSampleExtension) (item : ExtensionItem ρ χ) :
    Option (InsertCall ρ χ) :=
  if item.timesSampled ≠ 1 then none else some (e.insertOf item)

/-- `AfterRegisterTable`。 -/
def afterRegisterTable (e : InsertOnSampleExtension) (table : Table) : InsertOnSampleExtension :=
  { e with tableName := table.name }

/-- `BeforeUnregisterTable`。 -/
def beforeUnregisterTable (e : InsertOnSampleExtension) (_table : Table) :
    InsertOnSampleExtension :=
  { e with tableName := undefinedName }

/-- `DebugString`。 -/
def debugString (e : InsertOnSampleExtension) : String :=
  "InsertOnSampleExtension(source=" ++ e.tableName ++ ", target=" ++ e.targetTable.name ++ ")"

/-- `OnCheckpointLoaded`。読み込んだ表のうち、target と同じ名前の最初の表を target にする。
そのような表がなければ `REVERB_CHECK` が落ちる（`none`）。 -/
def onCheckpointLoaded (e : InsertOnSampleExtension) (tables : List Table) :
    Option InsertOnSampleExtension :=
  match tables.find? (·.name == e.targetTable.name) with
  | some table => some { e with targetTable := table }
  | none => none

end InsertOnSampleExtension

end Reverb
