import Reverb.Extension

/-!
# `InsertOnSampleExtension` の性質

1. `applyOnSample_of_one`・`applyOnSample_of_ne` — 一回の呼び出し：`times_sampled` が 1 の
   ときだけ、写しを target に入れる。
2. `filterMap_applyOnSample` — 呼び出しの列が入れるのは、`times_sampled` が 1 の item の写しを、
   呼ばれた順に並べたもの。
3. `insertOnSample_once` — 一つの item を続けて sample すると（`times_sampled` が 1, 2, …）、
   入るのは最初の sample の写しだけで、写しは `key` を残し、表の名前を target のものにし、
   `inserted_at` を消す。
4. `onCheckpointLoaded_target` — checkpoint から読んだ後の target は、読んだ表のうち同じ名前の
   最初の表。
-/

namespace Reverb

namespace InsertOnSampleExtension

variable {ρ χ : Type} (e : InsertOnSampleExtension)

@[simp] theorem applyOnSample_of_one {item : ExtensionItem ρ χ} (h : item.timesSampled = 1) :
    e.applyOnSample item = some (e.insertOf item) := by
  simp [applyOnSample, h]

@[simp] theorem applyOnSample_of_ne {item : ExtensionItem ρ χ} (h : item.timesSampled ≠ 1) :
    e.applyOnSample item = none := by
  simp [applyOnSample, h]

/-- 呼び出しの列が target に入れるもの。 -/
theorem filterMap_applyOnSample (items : List (ExtensionItem ρ χ)) :
    items.filterMap e.applyOnSample = (items.filter (·.timesSampled = 1)).map e.insertOf := by
  induction items with
  | nil => rfl
  | cons item items ih =>
    by_cases h : item.timesSampled = 1
    · simp [List.filterMap_cons, h, ih]
    · simp [List.filterMap_cons, h, ih]

/-- 一つの item を続けて sample すると、`times_sampled` は 1, 2, … と進み、
target に入るのは最初の sample の写しだけである。写しは target の表に入り、`key`・
`times_sampled`・残りの field と chunk を残し、表の名前を target のものにし、`inserted_at` を消す。 -/
theorem insertOnSample_once (item : ExtensionItem ρ χ) (rest : List (ExtensionItem ρ χ))
    (hcount : (item :: rest).map (·.timesSampled)
      = (List.range (rest.length + 1)).map fun i : Nat => (i + 1 : Int)) :
    (item :: rest).filterMap e.applyOnSample = [e.insertOf item] ∧
      (e.insertOf item).table = e.targetTable ∧
      (e.insertOf item).item.item.key = item.ref.item.key ∧
      (e.insertOf item).item.item.table = e.targetTable.name ∧
      (e.insertOf item).item.item.insertedAt = none ∧
      (e.insertOf item).item.item.timesSampled = item.ref.item.timesSampled ∧
      (e.insertOf item).item.item.rest = item.ref.item.rest ∧
      (e.insertOf item).item.chunks = item.ref.chunks := by
  simp only [List.range_succ_eq_map, List.map_cons, List.map_map, List.cons.injEq] at hcount
  obtain ⟨hfirst, hrest⟩ := hcount
  have hlater : ∀ x ∈ rest, x.timesSampled ≠ 1 := fun x hx => by
    have hmem := List.mem_map_of_mem (fun x : ExtensionItem ρ χ => x.timesSampled) hx
    rw [hrest] at hmem
    obtain ⟨i, -, hi⟩ := List.mem_map.1 hmem
    simp only [Function.comp_apply, Nat.succ_eq_add_one, Nat.cast_add] at hi
    omega
  refine ⟨?_, rfl, rfl, rfl, rfl, rfl, rfl, rfl⟩
  rw [filterMap_applyOnSample, List.filter_cons_of_pos (by simpa using hfirst),
    List.filter_eq_nil_iff.2 fun x hx => by simpa using hlater x hx]
  rfl

/-- checkpoint から読んだ後の target は、読んだ表のうち target と同じ名前の最初の表になり、
元の表の名前と timeout は変わらない。そのような表がないときだけ `REVERB_CHECK` が落ちる。 -/
theorem onCheckpointLoaded_target (tables : List Table) :
    (∀ e', e.onCheckpointLoaded tables = some e' →
      e'.targetTable.name = e.targetTable.name ∧ e'.tableName = e.tableName ∧
        e'.timeout = e.timeout ∧ ∃ before after, tables = before ++ e'.targetTable :: after ∧
          ∀ t ∈ before, t.name ≠ e.targetTable.name) ∧
    (e.onCheckpointLoaded tables = none ↔ ∀ t ∈ tables, t.name ≠ e.targetTable.name) := by
  unfold onCheckpointLoaded
  split
  · rename_i table hfind
    obtain ⟨hname, before, after, htables, hbefore⟩ := List.find?_eq_some.1 hfind
    refine ⟨fun e' he' => ?_, iff_of_false (by simp) fun h =>
      h table (List.mem_of_find?_eq_some hfind) (by simpa using hname)⟩
    cases he'
    exact ⟨by simpa using hname, rfl, rfl, before, after, htables,
      fun t ht => by simpa using hbefore t ht⟩
  · rename_i hfind
    refine ⟨fun _ h => (by cases h), iff_of_true rfl fun t ht => ?_⟩
    simpa using List.find?_eq_none.1 hfind t ht

end InsertOnSampleExtension

end Reverb
