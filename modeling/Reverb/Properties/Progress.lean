import Reverb.Properties.Shutdown

/-!
# `GetNextTimestep` が待つとき

stream が、行を取り出せる sample（`Sample.Ready`）だけを queue に入れるなら、`GetNextTimestep` は
`CHECK` を落とさず、null も参照しない。呼び出しが待つのは、今の sample に行が残っておらず、
queue が開いていて空のときだけである。

1. `World.ReadyReachable` — stream がこれから入れる sample が、どれも行を取り出せる走り。
2. `ReplaySampler.Ready` — queue の sample は行を取り出せ、今の sample は行を取り出せる形をしている。
   どの単位もこれを保つ（`World.step_ready`）。
3. `ReplaySampler.getNextTimestep_eq_none` — 2 と、閉じた queue には理由があること
   （`World.reachable_cause`）の下で、`GetNextTimestep` が値を返さないのは待つときだけ。
-/

namespace Reverb

variable {P ε : Type}

namespace WorkerPc

/-- stream がこれから queue に入れる sample。 -/
def pushes : WorkerPc ε → List (Sample ε)
  | streaming _ pushes _ => pushes
  | _ => []

@[simp] theorem pushes_streaming (n : Int) (pushes : List (Sample ε)) (result : Int × Status) :
    (streaming n pushes result).pushes = pushes := rfl
@[simp] theorem pushes_waiting : (waiting : WorkerPc ε).pushes = [] := rfl
@[simp] theorem pushes_stopped : (stopped : WorkerPc ε).pushes = [] := rfl
@[simp] theorem pushes_reserved (n : Int) : (reserved n : WorkerPc ε).pushes = [] := rfl

end WorkerPc

namespace ReplaySampler

/-- queue の sample は行を取り出せ、今の sample は行を取り出せる形をしている。 -/
structure Ready (r : ReplaySampler ε) : Prop where
  items : ∀ s ∈ r.samples.items, s.Ready
  active : r.ActiveValid

variable {r r' : ReplaySampler ε}

/-- queue の中身を減らすか変えず、今の sample に触らない変更。 -/
theorem Ready.of_sub (hr : r.Ready) (hitems : ∀ s ∈ r'.samples.items, s ∈ r.samples.items)
    (hact : r'.activeSample = r.activeSample) : r'.Ready :=
  ⟨fun s hs => hr.items s (hitems s hs), fun s hs => hr.active s (hact ▸ hs)⟩

/-- `RunWorker` の最初の区間は、queue と今の sample に触らない。 -/
theorem reserve_frame {result : Option Int} (h : r.reserve = some (result, r')) :
    r'.samples = r.samples ∧ r'.activeSample = r.activeSample := by
  unfold reserve at h
  split at h
  · split at h <;> obtain ⟨-, rfl⟩ := Prod.mk.inj (Option.some.inj h) <;> exact ⟨rfl, rfl⟩
  · cases h

theorem takeTimestep_ready {result : Except Status (List (Tensor ε) × Bool)} (hr : r.Ready)
    (h : r.takeTimestep = some (result, r')) : r'.Ready := by
  rcases result with status | ⟨data, eos⟩
  · exact takeTimestep_error h ▸ hr
  · obtain ⟨status, r₁, a, a', hm, ha, hg, -, rfl⟩ := takeTimestep_ok h
    rcases maybeSampleNext_cases hm with rfl | ⟨-, -, -, s, rest, hitems, rfl⟩
    · exact ⟨hr.items, fun _ h => Option.some.inj h ▸
        (Sample.getNextTimestep_deliveries (hr.active a ha) hg).2⟩
    · cases ha
      exact ⟨fun x hx => hr.items x (by simp [hitems, hx]), fun _ h => Option.some.inj h ▸
        (Sample.getNextTimestep_deliveries (hr.items a (by simp [hitems])).valid hg).2⟩

theorem takeSample_ready {result : Except Status (List (Tensor ε))} (hr : r.Ready)
    (h : r.takeSample = some (result, r')) : r'.Ready := by
  rcases result with status | data
  · exact takeSample_error h ▸ hr
  · obtain ⟨-, s, rest, hitems, -, rfl⟩ := takeSample_ok h
    exact hr.of_sub (fun x hx => by simp [hitems, hx]) rfl

/-! ## 待つとき -/

theorem getNextTimestep_eq_none_iff : r.getNextTimestep = none ↔ r.takeTimestep = none := by
  cases ht : r.takeTimestep with
  | none => simp [getNextTimestep, ht]
  | some x =>
    obtain ⟨_ | ⟨_, _ | _⟩, r₁⟩ := x <;> simp [getNextTimestep, ht]

/-- 今の sample に行が残っていれば、`takeTimestep` はその先頭を渡す。 -/
theorem takeTimestep_of_active {a a' : Sample ε} {data : List (Tensor ε)}
    (ha : r.activeSample = some a) (hend : a.isEndOfSample = false)
    (hg : a.getNextTimestep = some (data, a')) :
    r.takeTimestep = some (.ok (data, a'.isEndOfSample), { r with activeSample := some a' }) := by
  simp [takeTimestep, maybeSampleNext, ha, hend, hg]

/-- **待つとき**：queue の sample が行を取り出せ、閉じた queue に理由があれば、`GetNextTimestep` が
値を返さないのは、今の sample に行が残っておらず、queue が開いていて空のときだけである。 -/
theorem getNextTimestep_eq_none (hr : r.Ready)
    (hcause : r.samples.closed = true →
      r.returned = r.maxSamples ∨ r.closed = true ∨ r.streamStatus.ok = false) :
    r.getNextTimestep = none ↔
      r.samples.closed = false ∧ r.samples.items = [] ∧ r.activeCount = 0 := by
  rw [getNextTimestep_eq_none_iff]
  by_cases hany : (r.activeSample.any fun s => !s.isEndOfSample) = true
  · -- 今の sample に行が残っている
    obtain ⟨a, ha, hend⟩ : ∃ a, r.activeSample = some a ∧ a.isEndOfSample = false := by
      cases h : r.activeSample <;> simp_all
    obtain ⟨x, a', hg, -⟩ := Sample.getNextTimestep_valid (hr.active a ha)
      ((Sample.isEndOfSample_iff a).not.1 (by simp [hend]))
    simp [takeTimestep_of_active ha hend hg, activeCount, hany]
  · have hact : r.activeCount = 0 := by simp [activeCount, hany]
    have hm : r.maybeSampleNext = (r.popNextSample).map fun x =>
        match x.2.1 with
        | some sample => (x.1, { x.2.2 with activeSample := some sample })
        | none => (x.1, x.2.2) := by
      simp only [maybeSampleNext, hany, if_false]
      rfl
    cases hq : r.samples.closed with
    | true =>
      -- 閉じた queue：理由を error として返す
      have hpop := popNextSample_closed hq
      obtain ⟨status, hpop'⟩ : ∃ status, r.popNextSample = some (status, none, r) := ⟨_, hpop⟩
      have hfail : status.ok = false := by
        by_contra hok
        obtain ⟨s, hs⟩ := popNextSample_ok hcause hpop' (by simpa using hok)
        cases hs
      simp [takeTimestep, hm, hpop', hfail]
    | false =>
      cases hitems : r.samples.items with
      | nil =>
        simp [takeTimestep, hm, popNextSample, Queue.pop, hq, hitems, hact]
      | cons s rest =>
        -- queue の先頭を取り出して、その先頭の行を渡す
        obtain ⟨x, s', hg, -⟩ := Sample.getNextTimestep_valid
          (hr.items s (by simp [hitems])).valid (hr.items s (by simp [hitems])).nonempty
        simp [takeTimestep, hm, popNextSample, Queue.pop, hq, hitems, hg]

end ReplaySampler

namespace World

/-- stream がこれから queue に入れる sample が、どれも行を取り出せる走り。 -/
inductive ReadyReachable (codec : Codec P ε) (w₀ : World ε) : World ε → Prop
  | init : ReadyReachable codec w₀ w₀
  | step {w w' : World ε} : ReadyReachable codec w₀ w → Step codec w w' →
      (∀ t ∈ w'.workers, ∀ s ∈ t.pc.pushes, s.Ready) → ReadyReachable codec w₀ w'

theorem ReadyReachable.reachable {codec : Codec P ε} {w₀ w : World ε}
    (h : ReadyReachable codec w₀ w) : Reachable codec w₀ w := by
  induction h with
  | init => exact .init
  | step _ hs _ ih => exact .step ih hs

/-- **一歩**：どの thread のどの単位も、queue の sample と今の sample の形を保つ。 -/
theorem step_ready {codec : Codec P ε} {w w' : World ε} (hr : w.sampler.Ready)
    (hpushes : ∀ t ∈ w.workers, ∀ s ∈ t.pc.pushes, s.Ready) (h : Step codec w w') :
    w'.sampler.Ready := by
  cases h with
  | reserve _ _ hres =>
    obtain ⟨hs, ha⟩ := ReplaySampler.reserve_frame hres
    exact hr.of_sub (fun _ h => hs ▸ h) ha
  | openStream => exact hr
  | @push i t n s pushes result q hti hpc hpush =>
    rw [Queue.push_true hpush]
    refine ⟨fun x hx => ?_, hr.active⟩
    rcases List.mem_append.1 hx with hx | hx
    · exact hr.items x hx
    · rw [List.mem_singleton.1 hx]
      exact hpushes t (List.getElem?_mem hti) s (by simp [hpc])
  | finish _ _ hfin =>
    rcases ReplaySampler.finishStream_cases hfin with ⟨-, -, -, -, rfl⟩ | ⟨-, rfl⟩ <;>
      exact hr.of_sub (fun _ h => h) rfl
  | timestep _ ht => exact ReplaySampler.takeTimestep_ready hr ht
  | sample _ ht => exact ReplaySampler.takeSample_ready hr ht
  | count => exact hr.of_sub (by simp) rfl
  | close hm =>
    unfold ReplaySampler.markClosed at hm
    split at hm <;> obtain ⟨-, rfl⟩ := Prod.mk.inj hm
    · exact hr
    · exact hr.of_sub (fun _ h => h) rfl
  | cancel => exact hr
  | closeQueue => exact hr.of_sub (fun _ h => h) rfl

/-- 走りの上で、queue の sample と今の sample の形が保たれる。 -/
theorem readyReachable_ready {codec : Codec P ε} {maxSamples maxSamplesPerStream numWorkers : Int}
    {workers : List Worker} {w : World ε}
    (hw : ReadyReachable codec (init maxSamples maxSamplesPerStream numWorkers workers) w) :
    w.sampler.Ready ∧ ∀ t ∈ w.workers, ∀ s ∈ t.pc.pushes, s.Ready := by
  induction hw with
  | init =>
    refine ⟨⟨by simp [init, ReplaySampler.init], fun _ h => by cases h⟩, ?_⟩
    simp [init]
  | step _ hs hpushes ih => exact ⟨step_ready ih.1 ih.2 hs, hpushes⟩

/-- thread の `pushes` の並びが分かっていれば、`ReadyReachable` の一歩の条件はそれで確かめられる。 -/
theorem pushes_ready {ws : List (WorkerThread ε)} (ps : List (List (Sample ε)))
    (h : ws.map (·.pc.pushes) = ps) (hps : ∀ p ∈ ps, ∀ s ∈ p, s.Ready) :
    ∀ t ∈ ws, ∀ s ∈ t.pc.pushes, s.Ready := fun _ ht s hs =>
  hps _ (h ▸ List.mem_map_of_mem _ ht) s hs

end World

/-- **待つのは渡すものがないときだけ**：stream が行を取り出せる sample だけを入れる走りでは、
`GetNextTimestep` は `CHECK` を落とさず null も参照せず、値を返さない（待つ）のは、今の sample に
行が残っておらず、queue が開いていて空のときだけである。 -/
theorem getNextTimestep_waits_only_when_empty (codec : Codec P ε)
    {maxSamples maxSamplesPerStream numWorkers : Int} {workers : List Worker}
    (hmax : 1 ≤ maxSamples) (hper : 1 ≤ maxSamplesPerStream) {w : World ε}
    (hw : World.ReadyReachable codec
      (World.init maxSamples maxSamplesPerStream numWorkers workers) w) :
    w.sampler.getNextTimestep = none ↔
      w.sampler.samples.closed = false ∧ w.sampler.samples.items = [] ∧
        w.sampler.activeCount = 0 :=
  ReplaySampler.getNextTimestep_eq_none (World.readyReachable_ready hw).1
    (World.reachable_cause hmax hper hw.reachable).1

/-- worker が一行の sample を一つ入れた後。queue は空でないので、`GetNextTimestep` は待たない。 -/
theorem getNextTimestep_waits_only_when_empty_one_push :
    let codec : Codec Unit Unit := ⟨fun _ => 1, fun _ => .stack [.scalar (.elem ())], fun t _ => t⟩
    let w₀ : World Unit := World.init 2 1 1 [⟨"", 1, by decide, false⟩]
    (1 : Int) ≤ 2 ∧ (1 : Int) ≤ 1 ∧ ∃ w, World.ReadyReachable codec w₀ w ∧
      w.sampler.samples.items.length = 1 ∧
      (w.sampler.getNextTimestep = none ↔
        w.sampler.samples.closed = false ∧ w.sampler.samples.items = [] ∧
          w.sampler.activeCount = 0) ∧
      w.sampler.getNextTimestep ≠ none := by
  intro codec w₀
  obtain ⟨w, hw, hlen⟩ : ∃ w, World.ReadyReachable codec w₀ w ∧
      w.sampler.samples.items.length = 1 :=
    ⟨_, .step (.step (.step .init (.reserve (i := 0) rfl rfl rfl) (World.pushes_ready [[]] rfl
      (by simp))) (.openStream (i := 0) _ rfl rfl openStreamAndFetch_oneRow)
      (World.pushes_ready [[_]] rfl (by simpa using Sample.ready_oneRow 0)))
      (.push (i := 0) rfl rfl rfl) (World.pushes_ready [[]] rfl (by simp)), rfl⟩
  have h := getNextTimestep_waits_only_when_empty codec (by decide) le_rfl hw
  refine ⟨by decide, le_rfl, w, hw, hlen, h, fun hn => ?_⟩
  simp [(h.1 hn).2.1] at hlen

end Reverb
